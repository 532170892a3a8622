import Mathlib.Data.List.Forall2

/-! # Computations that may fail

Inversion of `Except` programs, and of a fallible function run down a list. -/

namespace EclipseOS.Foundation

variable {ε α β : Type}

theorem ok_of_bind_ok {computation : Except ε α} {next : α → Except ε β} {result : β}
    (success : (computation >>= next) = .ok result) :
    ∃ value, computation = .ok value ∧ next value = .ok result := by
  cases computation with
  | error error => cases success
  | ok value => exact ⟨value, rfl, success⟩

theorem ok_bind (value : α) (next : α → Except ε β) : (.ok value >>= next) = next value := rfl

theorem bind_eq_ok {computation : Except ε α} {next : α → Except ε β} {result : β} :
    (computation >>= next) = .ok result ↔
      ∃ value, computation = .ok value ∧ next value = .ok result := by
  constructor
  · exact ok_of_bind_ok
  · rintro ⟨value, rfl, rest⟩
    exact rest

theorem check_eq_ok {condition : Prop} [Decidable condition] {error : ε}
    {next : Unit → Except ε β} {result : β} :
    (if condition then throw error >>= next else next ()) = .ok result ↔
      ¬condition ∧ next () = .ok result := by
  by_cases failed : condition
  · have thrown : (throw error >>= next) ≠ .ok result := nofun
    simp [failed, thrown]
  · simp [failed]

theorem map_eq_ok {result : Except ε α} {make : α → β} {made : β} :
    make <$> result = .ok made ↔ ∃ value, result = .ok value ∧ make value = made := by
  cases result with
  | ok value =>
    constructor
    · intro same
      cases same
      exact ⟨value, rfl, rfl⟩
    · rintro ⟨_, ⟨⟩, rfl⟩
      rfl
  | error error =>
    constructor
    · intro same
      cases same
    · rintro ⟨_, found, -⟩
      cases found

theorem forall₂_of_mapM {step : α → Except ε β} {items : List α} {made : List β}
    (success : items.mapM step = .ok made) :
    List.Forall₂ (fun item result => step item = .ok result) items made := by
  induction items generalizing made with
  | nil =>
    cases success
    exact .nil
  | cons item items induction =>
    rw [List.mapM_cons] at success
    rcases ok_of_bind_ok success with ⟨first, stepped, continued⟩
    rcases ok_of_bind_ok continued with ⟨others, rest, result⟩
    cases result
    exact .cons stepped (induction rest)

theorem mem_of_mapM_ok {step : α → Except ε β} {items : List α} {made : List β}
    (success : items.mapM step = .ok made) {result : β} :
    result ∈ made ↔ ∃ item ∈ items, step item = .ok result := by
  induction items generalizing made with
  | nil =>
    cases success
    simp
  | cons item items induction =>
    rw [List.mapM_cons] at success
    obtain ⟨first, stepped, continued⟩ := ok_of_bind_ok success
    obtain ⟨others, rest, same⟩ := ok_of_bind_ok continued
    cases same
    rw [List.mem_cons, induction rest, List.exists_mem_cons_iff, stepped, Except.ok.injEq,
      eq_comm]

theorem exists_mapM_ok_iff {step : α → Except ε β} {items : List α} :
    (∃ made, items.mapM step = .ok made) ↔ ∀ item ∈ items, ∃ result, step item = .ok result := by
  induction items with
  | nil => simp [pure, Except.pure]
  | cons item items induction =>
    simp only [List.mapM_cons, bind_eq_ok, List.forall_mem_cons, ← induction]
    constructor
    · intro ⟨_, first, stepped, others, rest, _⟩
      exact ⟨⟨first, stepped⟩, others, rest⟩
    · intro ⟨⟨first, stepped⟩, others, rest⟩
      exact ⟨_, first, stepped, others, rest, rfl⟩

theorem exists_of_mem_mapM {step : α → Option β} {items : List α} {made : List β}
    (success : items.mapM step = some made) {result : β} (member : result ∈ made) :
    ∃ item ∈ items, step item = some result := by
  induction items generalizing made with
  | nil =>
    cases success
    cases member
  | cons item items induction =>
    simp only [List.mapM_cons, Option.bind_eq_bind, Option.bind_eq_some_iff, Option.pure_def,
      Option.some.injEq] at success
    rcases success with ⟨first, stepped, others, rest, rfl⟩
    rcases List.mem_cons.mp member with rfl | member
    · exact ⟨item, List.mem_cons_self, stepped⟩
    · rcases induction rest member with ⟨other, among, stepped⟩
      exact ⟨other, List.mem_cons_of_mem _ among, stepped⟩

theorem exists_of_mapM {step : α → Option β} {items : List α} {made : List β}
    (success : items.mapM step = some made) :
    ∀ item ∈ items, ∃ result, step item = some result := by
  induction items generalizing made with
  | nil =>
    intro item member
    cases member
  | cons item items induction =>
    simp only [List.mapM_cons, Option.bind_eq_bind, Option.bind_eq_some_iff] at success
    rcases success with ⟨first, stepped, others, rest, -⟩
    intro other member
    rcases List.mem_cons.mp member with rfl | later
    · exact ⟨first, stepped⟩
    · exact induction rest other later

theorem mapM_eq_map {step : α → Option β} {make : α → β} {items : List α}
    (each : ∀ item ∈ items, step item = some (make item)) :
    items.mapM step = some (items.map make) := by
  induction items with
  | nil => rfl
  | cons item items induction =>
    rw [List.mapM_cons, each item List.mem_cons_self,
      induction fun other later => each other (List.mem_cons_of_mem _ later)]
    rfl

theorem of_foldlM {step : β → α → Except ε β} {holds : β → Prop}
    (keeps : ∀ state item after, step state item = .ok after → holds state → holds after)
    {items : List α} {start result : β} (success : items.foldlM step start = .ok result)
    (first : holds start) : holds result := by
  induction items generalizing start with
  | nil =>
    cases success
    exact first
  | cons item items induction =>
    rw [List.foldlM_cons] at success
    rcases ok_of_bind_ok success with ⟨next, stepped, rest⟩
    exact induction rest (keeps _ _ _ stepped first)

theorem exists_of_mem_foldlM {step : β → α → Except ε β} {items : List α} {start result : β}
    (success : items.foldlM step start = .ok result) {item : α} (member : item ∈ items) :
    ∃ state after, step state item = .ok after := by
  induction items generalizing start with
  | nil => cases member
  | cons first items induction =>
    rw [List.foldlM_cons] at success
    rcases ok_of_bind_ok success with ⟨next, stepped, rest⟩
    rcases List.mem_cons.mp member with rfl | later
    · exact ⟨start, next, stepped⟩
    · exact induction rest later

theorem forall₂_forall_iff {relation : α → β → Prop} {left : α → Prop} {right : β → Prop}
    {items : List α} {made : List β} (related : List.Forall₂ relation items made)
    (same : ∀ item result, result ∈ made → relation item result →
      (left item ↔ right result)) :
    (∀ item ∈ items, left item) ↔ ∀ result ∈ made, right result := by
  induction related with
  | nil => simp
  | cons head tail induction =>
    have first := same _ _ List.mem_cons_self head
    have rest := induction fun item result member =>
      same item result (List.mem_cons_of_mem _ member)
    simp only [List.forall_mem_cons, first, rest]

end EclipseOS.Foundation
