import Mathlib.Data.List.Sort

/-! # Sorting by a key

Canonical maps and segment listings are both put in order by sorting on a key
whose values are distinct. A list that is already strictly ascending is then
the only possible result of the sort, whatever order its elements came in. -/

namespace EclipseOS.Foundation

section Sorting

variable {α : Type*} (le : α → α → Prop)

/-- `left` comes strictly before `right`. -/
def StrictlyBefore (left right : α) : Prop := le left right ∧ ¬le right left

instance [DecidableRel le] : DecidableRel (StrictlyBefore le) :=
  fun left right => inferInstanceAs (Decidable (le left right ∧ ¬le right left))

theorem eq_of_le_of_le {ordered : List α}
    (ascending : ordered.Pairwise (StrictlyBefore le))
    {left right : α} (leftMem : left ∈ ordered) (rightMem : right ∈ ordered)
    (forward : le left right) (backward : le right left) : left = right := by
  induction ascending with
  | nil => cases leftMem
  | cons before _ induction =>
    rcases List.mem_cons.mp leftMem with leftHead | leftTail
    · rcases List.mem_cons.mp rightMem with rightHead | rightTail
      · exact leftHead.trans rightHead.symm
      · subst left
        exact absurd backward (before right rightTail).2
    · rcases List.mem_cons.mp rightMem with rightHead | rightTail
      · subst right
        exact absurd forward (before left leftTail).2
      · exact induction leftTail rightTail

variable [DecidableRel le] [Std.Total le] [IsTrans α le]

theorem insertionSort_eq_of_perm {values ordered : List α}
    (perm : values.Perm ordered)
    (ascending : ordered.Pairwise (StrictlyBefore le)) :
    values.insertionSort le = ordered := by
  have sortedPerm := (List.perm_insertionSort le values).trans perm
  refine List.Perm.eq_of_pairwise ?_ (List.pairwise_insertionSort le values)
    (ascending.imp fun before => before.1) sortedPerm
  intro left right leftMem rightMem forward backward
  exact eq_of_le_of_le le ascending (sortedPerm.mem_iff.mp leftMem) rightMem
    forward backward

theorem insertionSort_eq_self_iff (values : List α) :
    values.insertionSort le = values ↔ values.Pairwise le := by
  constructor
  · intro fixed
    rw [← fixed]
    exact List.pairwise_insertionSort le values
  · intro ordered
    exact List.Pairwise.insertionSort_eq ordered

end Sorting

end EclipseOS.Foundation
