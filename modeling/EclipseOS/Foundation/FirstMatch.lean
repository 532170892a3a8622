import Mathlib.Data.List.Forall2
import Mathlib.Data.List.Nodup

/-! # The first match in a list

Changing the first element that matches, and putting an element in its place or
at the end. -/

namespace EclipseOS.Foundation

variable {α β : Type}

/-- `if let Some(slot) = items.iter_mut().find(matches) { change(slot) }`. -/
def modifyFirst (found : α → Bool) (change : α → α) : List α → List α
  | [] => []
  | item :: items =>
    if found item then change item :: items else item :: modifyFirst found change items

def upsert (found : α → Bool) (value : α) (items : List α) : List α :=
  if items.any found then modifyFirst found (fun _ => value) items else items ++ [value]

variable {found : α → Bool} {change : α → α} {items : List α}

attribute [local simp] modifyFirst in
theorem map_modifyFirst_of_find {view : α → β} {first : α} (isFirst : items.find? found = some first)
    (kept : view (change first) = view first) :
    (modifyFirst found change items).map view = items.map view := by
  induction items with
  | nil => rfl
  | cons item items induction =>
    rw [modifyFirst]
    rw [List.find?_cons] at isFirst
    cases isFound : found item with
    | true =>
      rw [isFound] at isFirst
      cases isFirst
      rw [if_pos rfl, List.map_cons, List.map_cons, kept]
    | false =>
      rw [isFound] at isFirst
      rw [if_neg Bool.false_ne_true, List.map_cons, List.map_cons, induction isFirst]

theorem modifyFirst_eq_map [DecidableEq β] (key : α → β) {wanted : β}
    (nodup : (items.map key).Nodup) :
    modifyFirst (fun item => key item = wanted) change items =
      items.map fun item => if key item = wanted then change item else item := by
  induction items with
  | nil => rfl
  | cons item items induction =>
    rw [List.map_cons, List.nodup_cons] at nodup
    rw [modifyFirst, List.map_cons]
    by_cases isWanted : key item = wanted
    · rw [if_pos (decide_eq_true isWanted), if_pos isWanted]
      have others : ∀ other ∈ items, key other ≠ wanted := by
        intro other member same
        exact nodup.1 (isWanted.trans same.symm ▸ List.mem_map_of_mem member)
      congr 1
      rw [List.map_congr_left fun other member => if_neg (others other member), List.map_id']
    · rw [if_neg (by simpa using isWanted), if_neg isWanted, induction nodup.2]

theorem modifyFirst_eq_map_of_sole (sole : items.Pairwise fun one other => found one → ¬found other) :
    modifyFirst found change items =
      items.map fun item => if found item then change item else item := by
  induction items with
  | nil => rfl
  | cons item items induction =>
    rcases List.pairwise_cons.mp sole with ⟨alone, sole⟩
    rw [modifyFirst, List.map_cons]
    by_cases isFound : found item
    · rw [if_pos isFound, if_pos isFound]
      congr 1
      rw [List.map_congr_left fun other member => if_neg (alone other member isFound), List.map_id']
    · rw [if_neg isFound, if_neg isFound, induction sole]

theorem find?_modifyFirst (change : α → α) (kept : ∀ item, found (change item) = found item) :
    (modifyFirst found change items).find? found = (items.find? found).map change := by
  induction items with
  | nil => rfl
  | cons item items induction =>
    rw [modifyFirst]
    cases isFound : found item with
    | true => simp [kept, isFound]
    | false => simp [isFound, induction]

theorem find?_modifyFirst_of_apart (change : α → α) {other : α → Bool}
    (apart : ∀ item, found item → other item = false ∧ other (change item) = false) :
    (modifyFirst found change items).find? other = items.find? other := by
  induction items with
  | nil => rfl
  | cons item items induction =>
    rw [modifyFirst]
    cases isFound : found item with
    | true => simp [apart item isFound]
    | false => rw [if_neg Bool.false_ne_true, List.find?_cons, List.find?_cons, induction]

theorem find?_filter_of_find {keep : α → Bool} {first : α}
    (isFirst : items.find? found = some first) (kept : keep first) :
    (items.filter keep).find? found = some first := by
  rcases List.find?_eq_some_iff_append.mp isFirst with ⟨isFound, before, after, rfl, earlier⟩
  rw [List.filter_append, List.filter_cons_of_pos kept]
  refine List.find?_eq_some_iff_append.mpr ⟨isFound, _, _, rfl, ?_⟩
  intro item member
  exact earlier item (List.mem_filter.mp member).1

theorem perm_flatMap_modifyFirst {parts : α → List β} {first : α} {part : β}
    (isFirst : items.find? found = some first)
    (taken : (parts first).Perm (part :: parts (change first))) :
    (items.flatMap parts).Perm (part :: (modifyFirst found change items).flatMap parts) := by
  induction items with
  | nil => cases isFirst
  | cons item items induction =>
    rw [modifyFirst, List.flatMap_cons]
    rw [List.find?_cons] at isFirst
    cases isFound : found item with
    | true =>
      rw [isFound] at isFirst
      cases isFirst
      rw [if_pos rfl, List.flatMap_cons]
      exact taken.append_right _
    | false =>
      rw [isFound] at isFirst
      rw [if_neg Bool.false_ne_true, List.flatMap_cons]
      exact ((induction isFirst).append_left _).trans List.perm_middle

/-- `items.iter_mut().rev().find(matches)`, changed. -/
def modifyLast (found : α → Bool) (change : α → α) (items : List α) : List α :=
  (modifyFirst found change items.reverse).reverse

theorem modifyLast_eq_map_of_sole
    (sole : items.Pairwise fun one other => found one → ¬found other) :
    modifyLast found change items =
      items.map fun item => if found item then change item else item := by
  have reversed : items.reverse.Pairwise fun one other => found one → ¬found other :=
    List.pairwise_reverse.mpr (sole.imp fun alone other one => alone one other)
  rw [modifyLast, modifyFirst_eq_map_of_sole reversed, ← List.map_reverse, List.reverse_reverse]

theorem upsert_of_absent {value : α} (absent : ∀ item ∈ items, found item = false) :
    upsert found value items = items ++ [value] := by
  have none : items.any found = false := by simpa using absent
  rw [upsert, none]
  rfl

theorem upsert_of_present {value first : α} (isFirst : items.find? found = some first) :
    upsert found value items = modifyFirst found (fun _ => value) items := by
  have some : items.any found = true :=
    List.any_eq_true.mpr ⟨first, List.mem_of_find?_eq_some isFirst, List.find?_some isFirst⟩
  rw [upsert, some]
  rfl

end EclipseOS.Foundation
