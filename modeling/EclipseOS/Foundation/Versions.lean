import Mathlib.Data.List.Basic

/-! # Numbered versions

A publisher gives every version of a thing the number after the last one's. Followers
hold a version and are told of the next ones whole, or as what changes; they take a
change only onto the version it was made from. -/

namespace EclipseOS.Foundation

/-- What a thing was at one of its numbered moments. -/
structure Version (κ α : Type) where
  key : κ
  number : Nat
  content : α
  deriving DecidableEq

namespace Version

variable {κ α δ : Type} [DecidableEq κ]

/-- The last version of a thing in a log, latest first. -/
def latest (log : List (Version κ α)) (key : κ) : Option (Version κ α) :=
  log.find? (·.key = key)

/-- A version comes next: the first one, the last one again, or its successor. -/
def Next (version : Version κ α) : Option (Version κ α) → Prop
  | none => version.number = 0
  | some last => version = last ∨ version.number = last.number + 1

/-- Every version of the log came next when it was published. -/
inductive Numbered : List (Version κ α) → Prop
  | nil : Numbered []
  | cons {log version} : Numbered log → Next version (latest log version.key) →
      Numbered (version :: log)

variable {log : List (Version κ α)} {version : Version κ α} {key : κ}

theorem latest_cons_self : latest (version :: log) version.key = some version := by
  simp [latest]

theorem latest_cons_of_ne (other : version.key ≠ key) :
    latest (version :: log) key = latest log key := by
  simp [latest, other]

theorem latest_mem (last : latest log key = some version) :
    version ∈ log ∧ version.key = key := by
  have found := List.find?_some last
  exact ⟨List.mem_of_find?_eq_some last, by simpa using found⟩

theorem latest_none (none : latest log key = none) (member : version ∈ log) :
    version.key ≠ key := by
  simpa using List.find?_eq_none.mp none version member

theorem Numbered.le_latest (numbered : Numbered log) (member : version ∈ log) :
    ∃ last, latest log version.key = some last ∧ version.number ≤ last.number ∧
      (version.number = last.number → version = last) := by
  induction numbered with
  | nil => exact absurd member List.not_mem_nil
  | @cons log newest numbered next induction =>
    rcases List.mem_cons.mp member with rfl | older
    · exact ⟨version, latest_cons_self, Nat.le_refl _, fun _ => rfl⟩
    rcases induction older with ⟨last, isLast, bound, same⟩
    by_cases key : newest.key = version.key
    · rw [key, isLast] at next
      rcases next with rfl | successor
      · exact ⟨newest, key ▸ latest_cons_self, bound, same⟩
      · refine ⟨newest, key ▸ latest_cons_self, by omega, fun equal => ?_⟩
        omega
    · exact ⟨last, (latest_cons_of_ne key).trans isLast, bound, same⟩

theorem Numbered.one_content (numbered : Numbered log) {other : Version κ α}
    (member : version ∈ log) (otherMember : other ∈ log) (key : version.key = other.key)
    (number : version.number = other.number) : version.content = other.content := by
  induction numbered with
  | nil => exact absurd member List.not_mem_nil
  | @cons log newest numbered next induction =>
    -- The newest one is past every older one, or one of them again.
    have againOf : ∀ older ∈ log, newest.key = older.key →
        newest.number = older.number → newest.content = older.content := by
      intro older member key number
      rcases numbered.le_latest member with ⟨last, isLast, bound, same⟩
      rw [key, isLast] at next
      rcases next with rfl | successor
      · rw [same number.symm]
      · omega
    rcases List.mem_cons.mp member with rfl | older
    · rcases List.mem_cons.mp otherMember with rfl | older
      · rfl
      · exact againOf other older key number
    · rcases List.mem_cons.mp otherMember with rfl | otherOlder
      · exact (againOf version older key.symm number.symm).symm
      · exact induction older otherOlder

theorem Numbered.consecutive (numbered : Numbered log) (member : version ∈ log) :
    ∀ number ≤ version.number,
      ∃ earlier ∈ log, earlier.key = version.key ∧ earlier.number = number := by
  induction numbered generalizing version with
  | nil => exact absurd member List.not_mem_nil
  | @cons log newest numbered next induction =>
    intro number bound
    rcases List.mem_cons.mp member with rfl | older
    · rcases Nat.eq_or_lt_of_le bound with rfl | before
      · exact ⟨version, List.mem_cons_self, rfl, rfl⟩
      cases isLast : latest log version.key with
      | none =>
        rw [isLast] at next
        rw [Next] at next
        omega
      | some last =>
        rw [isLast] at next
        rcases latest_mem isLast with ⟨lastMember, key⟩
        have bound : number ≤ last.number := by
          rcases next with rfl | successor <;> omega
        rcases induction lastMember number bound with ⟨earlier, member, sameKey, equal⟩
        exact ⟨earlier, List.mem_cons_of_mem _ member, sameKey.trans key, equal⟩
    · rcases induction older number bound with ⟨earlier, member, key, equal⟩
      exact ⟨earlier, List.mem_cons_of_mem _ member, key, equal⟩

theorem Numbered.inOrder {later before : List (Version κ α)}
    (numbered : Numbered (later ++ version :: before)) {older : Version κ α}
    (member : older ∈ before) (key : older.key = version.key) :
    older.number ≤ version.number := by
  induction later with
  | nil =>
    cases numbered with
    | cons numbered next =>
      rcases numbered.le_latest member with ⟨last, isLast, bound, -⟩
      rw [← key, isLast] at next
      rcases next with rfl | successor <;> omega
  | cons newest later induction =>
    cases numbered with
    | cons numbered _ => exact induction numbered

/-- What a follower is told: a version whole, or what makes the one after `number`. -/
inductive Told (κ α δ : Type) where
  | whole (version : Version κ α)
  | change (key : κ) (number : Nat) (delta : δ)

/-- What is told is of versions that were published. -/
def Told.Of (apply : α → δ → α) (log : List (Version κ α)) : Told κ α δ → Prop
  | .whole version => version ∈ log
  | .change key number delta => ∃ content,
      ⟨key, number, content⟩ ∈ log ∧ ⟨key, number + 1, apply content delta⟩ ∈ log

omit [DecidableEq κ] in
theorem Told.Of.mono {apply : α → δ → α} {more : List (Version κ α)} {told : Told κ α δ}
    (of : told.Of apply log) (grown : log ⊆ more) : told.Of apply more := by
  cases told with
  | whole version => exact grown of
  | change key number delta =>
    rcases of with ⟨content, before, after⟩
    exact ⟨content, grown before, grown after⟩

theorem Numbered.onto {apply : α → δ → α} {delta : δ} (numbered : Numbered log)
    (held : version ∈ log)
    (of : (Told.change version.key version.number delta).Of apply log) :
    ⟨version.key, version.number + 1, apply version.content delta⟩ ∈ log := by
  rcases of with ⟨content, before, after⟩
  rwa [numbered.one_content held before rfl rfl]

end Version

end EclipseOS.Foundation
