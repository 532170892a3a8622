import Mathlib.Data.List.Basic

/-! # Streams with gap markers

A stream that loses items says so: where some were lost, one marker stands with their
number, before the next item that was kept. -/

namespace EclipseOS.Foundation

inductive Marked (α : Type) where
  | item (value : α)
  | gap (lost : Nat)
  deriving DecidableEq

namespace Marked

variable {α : Type}

/-- The marker for a number of items, if any were lost. -/
def mark (lost : Nat) : List (Marked α) := if lost = 0 then [] else [gap lost]

/-- The items lost since the last one that was kept. -/
def trailing (stream : List (Option α)) : Nat :=
  stream.foldl (fun lost entry => if entry.isSome then 0 else lost + 1) 0

/-- The stream up to the last item that was kept, by a fold that carries the open gap. -/
def closed (stream : List (Option α)) : List (Marked α) :=
  (stream.foldl (fun (done, lost) entry =>
    match entry with
    | some value => (done ++ mark lost ++ [item value], 0)
    | none => (done, lost + 1)) ([], 0)).1

/-- What a reader of the whole stream should see. -/
def marked (stream : List (Option α)) : List (Marked α) := closed stream ++ mark (trailing stream)

theorem fold_trailing (stream : List (Option α)) (done : List (Marked α)) (lost : Nat) :
    (stream.foldl (fun (done, lost) entry =>
      match entry with
      | some value => (done ++ mark lost ++ [item value], 0)
      | none => (done, lost + 1)) (done, lost)).2 =
      stream.foldl (fun lost entry => if entry.isSome then 0 else lost + 1) lost := by
  induction stream generalizing done lost with
  | nil => rfl
  | cons entry rest induction =>
    cases entry with
    | none => exact induction done (lost + 1)
    | some value => exact induction _ 0

@[simp] theorem mark_zero : mark 0 = ([] : List (Marked α)) := rfl

@[simp] theorem mark_succ (lost : Nat) : mark (lost + 1) = [(gap (lost + 1) : Marked α)] := rfl

@[simp] theorem trailing_some (stream : List (Option α)) (value : α) :
    trailing (stream ++ [some value]) = 0 := by
  rw [trailing, List.foldl_append]
  rfl

@[simp] theorem trailing_none (stream : List (Option α)) :
    trailing (stream ++ [none]) = trailing stream + 1 := by
  rw [trailing, List.foldl_append]
  rfl

@[simp] theorem marked_some (stream : List (Option α)) (value : α) :
    marked (stream ++ [some value]) = marked stream ++ [item value] := by
  rw [marked, trailing_some, mark_zero, List.append_nil, marked, closed, closed, trailing,
    List.foldl_append, ← fold_trailing stream []]
  rfl

@[simp] theorem marked_none (stream : List (Option α)) :
    marked (stream ++ [none]) = closed stream ++ [gap (trailing stream + 1)] := by
  rw [marked, trailing_none, closed, List.foldl_append]
  rfl

theorem late_mark_ne {lost : Nat} (some : lost ≠ 0) (before : List (Marked α)) (value : α) :
    before ++ [item value] ++ mark lost ≠ before ++ mark lost ++ [item value] := by
  rw [mark, if_neg some, List.append_assoc, List.append_assoc]
  intro same
  cases List.append_cancel_left same

end Marked

end EclipseOS.Foundation
