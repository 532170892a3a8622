import Mathlib.Data.List.Basic
import Mathlib.Order.Basic

/-! # Bounded logs of a window

Stamps count while they are fresh. A log that drops what is stale, and its oldest
stamp when it is full, counts what the whole history counts, up to its capacity. -/

namespace EclipseOS.Foundation

variable {τ : Type} [LE τ]

/-- A stamp is fresh as long as an earlier one, and once stale it stays so. -/
structure Fades (fresh : τ → τ → Bool) : Prop where
  of_older : ∀ {now older stamp}, older ≤ stamp → fresh now older = true → fresh now stamp = true
  of_later : ∀ {now later stamp}, now ≤ later → fresh later stamp = true → fresh now stamp = true

namespace WindowLog

/-- Drops what is stale, then the oldest stamp of a full log, and adds `now`. -/
def push (capacity : Nat) (fresh : τ → τ → Bool) (now : τ) (kept : List τ) : List τ :=
  let kept := kept.filter (fresh now)
  (if kept.length = capacity then kept.tail else kept) ++ [now]

/-- What was dropped is stale by now, or there was no room for it. -/
structure Remembers (capacity : Nat) (fresh : τ → τ → Bool) (now : τ)
    (history kept : List τ) : Prop where
  bounded : kept.length ≤ capacity
  dropped : ∃ old, old ++ kept = history ∧
    (kept.length = capacity ∨ ∀ stamp ∈ old, fresh now stamp = false)

namespace Remembers

variable {capacity : Nat} {fresh : τ → τ → Bool} {now : τ} {history kept : List τ}

omit [LE τ] in
theorem empty : Remembers capacity fresh now [] [] where
  bounded := Nat.zero_le _
  dropped := ⟨[], rfl, Or.inr (List.forall_mem_nil _)⟩

theorem later (fades : Fades fresh) {later : τ} (le : now ≤ later)
    (remembers : Remembers capacity fresh now history kept) :
    Remembers capacity fresh later history kept where
  bounded := remembers.bounded
  dropped := by
    obtain ⟨old, split, stale⟩ := remembers.dropped
    refine ⟨old, split, stale.imp_right fun stale stamp member => ?_⟩
    apply Bool.eq_false_iff.mpr
    intro still
    exact absurd (fades.of_later le still) (Bool.eq_false_iff.mp (stale stamp member))

theorem stale_or_full (fades : Fades fresh)
    (remembers : Remembers capacity fresh now history kept)
    (ordered : history.Pairwise (· ≤ ·)) :
    ∃ old, old ++ kept = history ∧
      ((∀ stamp ∈ old, fresh now stamp = false) ∨
        kept.length = capacity ∧ kept.filter (fresh now) = kept) := by
  obtain ⟨old, split, full | stale⟩ := remembers.dropped
  · refine ⟨old, split, ?_⟩
    by_cases allFresh : ∀ stamp ∈ kept, fresh now stamp = true
    · exact Or.inr ⟨full, List.filter_eq_self.mpr allFresh⟩
    · push Not at allFresh
      obtain ⟨aged, member, notFresh⟩ := allFresh
      refine Or.inl fun stamp inOld => Bool.eq_false_iff.mpr fun still => notFresh ?_
      rw [← split] at ordered
      have older : stamp ≤ aged := (List.pairwise_append.mp ordered).2.2 stamp inOld aged member
      exact fades.of_older older still
  · exact ⟨old, split, Or.inl stale⟩

theorem count_eq (fades : Fades fresh) (remembers : Remembers capacity fresh now history kept)
    (ordered : history.Pairwise (· ≤ ·)) :
    (kept.filter (fresh now)).length =
      min capacity (history.filter (fresh now)).length := by
  obtain ⟨old, split, counted⟩ := remembers.stale_or_full fades ordered
  have bounded := remembers.bounded
  have fewer : (kept.filter (fresh now)).length ≤ kept.length := List.length_filter_le _ _
  rw [← split, List.filter_append, List.length_append]
  rcases counted with stale | ⟨full, allFresh⟩
  · have none : old.filter (fresh now) = [] := by
      apply List.filter_eq_nil_iff.mpr
      intro stamp member
      simp [stale stamp member]
    rw [none, List.length_nil]
    omega
  · rw [allFresh]
    omega

end Remembers

theorem exists_append_filter {fresh : τ → τ → Bool} (now : τ) {kept : List τ}
    (fades : Fades fresh) (ordered : kept.Pairwise (· ≤ ·)) :
    ∃ aged, kept = aged ++ kept.filter (fresh now) ∧ ∀ stamp ∈ aged, fresh now stamp = false := by
  induction kept with
  | nil => exact ⟨[], rfl, List.forall_mem_nil _⟩
  | cons first others induction =>
    obtain ⟨before, rest⟩ := List.pairwise_cons.mp ordered
    cases isFresh : fresh now first with
    | true =>
      have allFresh : ∀ stamp ∈ first :: others, fresh now stamp = true := by
        intro stamp member
        rcases List.mem_cons.mp member with rfl | later
        · exact isFresh
        · exact fades.of_older (before stamp later) isFresh
      exact ⟨[], (List.filter_eq_self.mpr allFresh).symm, List.forall_mem_nil _⟩
    | false =>
      obtain ⟨aged, split, stale⟩ := induction rest
      refine ⟨first :: aged, ?_, List.forall_mem_cons.mpr ⟨isFresh, stale⟩⟩
      rw [List.filter_cons_of_neg (by simp [isFresh]), List.cons_append, ← split]

theorem Remembers.push {capacity : Nat} {fresh : τ → τ → Bool} {now : τ}
    {history kept : List τ} (fades : Fades fresh) (room : 0 < capacity)
    (remembers : Remembers capacity fresh now history kept)
    (ordered : history.Pairwise (· ≤ ·)) :
    Remembers capacity fresh now (history ++ [now])
      (WindowLog.push capacity fresh now kept) := by
  obtain ⟨old, split, counted⟩ := remembers.stale_or_full fades ordered
  have sorted : kept.Pairwise (· ≤ ·) := by
    rw [← split] at ordered
    exact (List.pairwise_append.mp ordered).2.1
  obtain ⟨aged, parts, stale⟩ := exists_append_filter now fades sorted
  have fewer := List.length_filter_le (fresh now) kept
  have bounded := remembers.bounded
  have whole : history ++ [now] = old ++ aged ++ (kept.filter (fresh now) ++ [now]) := by
    rw [← split]
    conv_lhs => rw [parts]
    simp only [List.append_assoc]
  by_cases full : (kept.filter (fresh now)).length = capacity
  · rw [WindowLog.push, if_pos full, whole]
    obtain ⟨oldest, others, freshParts⟩ :=
      List.exists_cons_of_length_pos (l := kept.filter (fresh now)) (by omega)
    rw [freshParts, List.length_cons] at full
    have filled : ((kept.filter (fresh now)).tail ++ [now]).length = capacity := by
      rw [freshParts, List.tail_cons, List.length_append, List.length_singleton, full]
    refine ⟨Nat.le_of_eq filled, old ++ aged ++ [oldest], ?_, Or.inl filled⟩
    rw [freshParts, List.tail_cons]
    simp only [List.append_assoc, List.cons_append, List.nil_append]
  · rw [WindowLog.push, if_neg full, whole]
    refine ⟨?_, old ++ aged, rfl, Or.inr ?_⟩
    · rw [List.length_append, List.length_singleton]
      omega
    · refine List.forall_mem_append.mpr ⟨?_, stale⟩
      rcases counted with gone | ⟨filled, allFresh⟩
      · exact gone
      · rw [allFresh] at full
        exact absurd filled full

end WindowLog

end EclipseOS.Foundation
