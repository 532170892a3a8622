import Mathlib.Data.List.Forall2
import Mathlib.Data.List.Infix

/-! # Wildcard patterns

The language of a pattern of single symbols, of any one symbol and of runs, and
the part of it that a matcher finds which takes a run for the symbol it is
written with wherever the text has that symbol. -/

namespace EclipseOS.Foundation

/-- One symbol, any one symbol, or a run of any length. -/
inductive Wildcard (α : Type) where
  | one (symbol : α)
  | any
  | run
  deriving DecidableEq

namespace Wildcard

variable {α : Type}

inductive Spells : List (Wildcard α) → List α → Prop where
  | nil : Spells [] []
  | one {symbol : α} {pattern : List (Wildcard α)} {text : List α} (rest : Spells pattern text) :
      Spells (one symbol :: pattern) (symbol :: text)
  | any {symbol : α} {pattern : List (Wildcard α)} {text : List α} (rest : Spells pattern text) :
      Spells (any :: pattern) (symbol :: text)
  | run {pattern : List (Wildcard α)} {text : List α} (skipped : List α)
      (rest : Spells pattern text) : Spells (run :: pattern) (skipped ++ text)

/-- The text is in the language where a run that stands at `wild` is that one
symbol. -/
inductive SpellsPlain (wild : α) : List (Wildcard α) → List α → Prop where
  | nil : SpellsPlain wild [] []
  | one {symbol : α} {pattern : List (Wildcard α)} {text : List α}
      (rest : SpellsPlain wild pattern text) :
      SpellsPlain wild (one symbol :: pattern) (symbol :: text)
  | any {symbol : α} {pattern : List (Wildcard α)} {text : List α}
      (rest : SpellsPlain wild pattern text) : SpellsPlain wild (any :: pattern) (symbol :: text)
  | wild {pattern : List (Wildcard α)} {text : List α} (rest : SpellsPlain wild pattern text) :
      SpellsPlain wild (run :: pattern) (wild :: text)
  | run {pattern : List (Wildcard α)} {text later : List α} (apart : text.head? ≠ some wild)
      (isSuffix : later <:+ text) (rest : SpellsPlain wild pattern later) :
      SpellsPlain wild (run :: pattern) text

def Stands (wild : α) : Wildcard α → α → Prop
  | one symbol, found => symbol = found
  | any, _ => True
  | run, found => found = wild

variable {wild symbol : α} {token : Wildcard α} {pattern segment : List (Wildcard α)}
  {text rest taken : List α}

theorem SpellsPlain.spells (plain : SpellsPlain wild pattern text) : Spells pattern text := by
  induction plain with
  | nil => exact .nil
  | one _ induction => exact .one induction
  | any _ induction => exact .any induction
  | wild _ induction => exact .run [_] induction
  | run _ isSuffix _ induction =>
    rcases isSuffix with ⟨skipped, rfl⟩
    exact .run skipped induction

theorem Spells.plain_of_no_run (spells : Spells pattern text) (absent : Wildcard.run ∉ pattern) :
    SpellsPlain wild pattern text := by
  induction spells with
  | nil => exact .nil
  | one _ induction => exact .one (induction fun found => absent (List.mem_cons_of_mem _ found))
  | any _ induction => exact .any (induction fun found => absent (List.mem_cons_of_mem _ found))
  | run _ _ _ => exact absurd List.mem_cons_self absent

theorem Spells.append {others : List (Wildcard α)} (first : Spells pattern text)
    (second : Spells others rest) : Spells (pattern ++ others) (text ++ rest) := by
  induction first with
  | nil => exact second
  | one _ induction => exact .one induction
  | any _ induction => exact .any induction
  | run skipped _ induction =>
    rw [List.append_assoc]
    exact .run skipped induction

theorem Spells.plain (spells : Spells pattern text) (absent : wild ∉ text) :
    SpellsPlain wild pattern text := by
  induction spells with
  | nil => exact .nil
  | one _ induction => exact .one (induction fun found => absent (List.mem_cons_of_mem _ found))
  | any _ induction => exact .any (induction fun found => absent (List.mem_cons_of_mem _ found))
  | run skipped _ induction =>
    refine .run (fun first => absent (List.mem_of_mem_head? first)) (List.suffix_append _ _)
      (induction ?_)
    exact fun found => absent (List.mem_append_right _ found)

theorem SpellsPlain.tail (plain : SpellsPlain wild (token :: pattern) text) :
    ∃ rest, rest <:+ text ∧ SpellsPlain wild pattern rest := by
  cases plain with
  | one rest => exact ⟨_, List.suffix_cons _ _, rest⟩
  | any rest => exact ⟨_, List.suffix_cons _ _, rest⟩
  | wild rest => exact ⟨_, List.suffix_cons _ _, rest⟩
  | run _ isSuffix rest => exact ⟨_, isSuffix, rest⟩

theorem plain_cons_iff_of_stands (stands : Stands wild token symbol) :
    SpellsPlain wild (token :: pattern) (symbol :: text) ↔ SpellsPlain wild pattern text := by
  constructor
  · intro plain
    cases plain with
    | one rest => exact rest
    | any rest => exact rest
    | wild rest => exact rest
    | run apart _ _ =>
      have isWild : symbol = wild := stands
      exact absurd (congrArg some isWild) apart
  · intro rest
    cases token with
    | one found =>
      have same : found = symbol := stands
      exact same ▸ .one rest
    | any => exact .any rest
    | run =>
      have isWild : symbol = wild := stands
      rw [isWild]
      exact .wild rest

theorem plain_run_iff (apart : text.head? ≠ some wild) :
    SpellsPlain wild (run :: pattern) text ↔ ∃ rest, rest <:+ text ∧ SpellsPlain wild pattern rest := by
  constructor
  · exact SpellsPlain.tail
  · intro later
    rcases later with ⟨rest, isSuffix, plain⟩
    exact .run apart isSuffix plain

/-- Where tokens take a symbol each, no other way through them gets to their end
sooner. -/
theorem SpellsPlain.after_stands (stands : List.Forall₂ (Stands wild) segment taken)
    (isSuffix : rest <:+ taken ++ text) (plain : SpellsPlain wild (segment ++ pattern) rest) :
    ∃ later, later <:+ text ∧ SpellsPlain wild pattern later := by
  induction stands generalizing rest with
  | nil => exact ⟨rest, isSuffix, plain⟩
  | cons first _ induction =>
    rcases List.suffix_cons_iff.mp isSuffix with rfl | shorter
    · exact induction (List.suffix_refl _) ((plain_cons_iff_of_stands first).mp plain)
    · rcases plain.tail with ⟨others, isOthers, plainOthers⟩
      exact induction (isOthers.trans shorter) plainOthers

theorem plain_append_iff_of_stands (stands : List.Forall₂ (Stands wild) segment taken) :
    SpellsPlain wild (segment ++ pattern) (taken ++ text) ↔ SpellsPlain wild pattern text := by
  induction stands with
  | nil => exact Iff.rfl
  | cons first _ induction => exact (plain_cons_iff_of_stands first).trans induction

end Wildcard

end EclipseOS.Foundation
