import Mathlib.Init

/-! # Edits that refuse without a trace

A stateful computation that may refuse: whether a refusal leaves the state as it
was, from what its parts do. -/

namespace EclipseOS.Foundation

variable {ε σ α β : Type}

def Atomic (edit : EStateM ε σ α) : Prop :=
  ∀ state error after, edit.run state = .error error after → after = state

def Total (edit : EStateM ε σ α) : Prop :=
  ∀ state, ∃ value after, edit.run state = .ok value after

def Inspects (edit : EStateM ε σ α) : Prop :=
  ∀ state, (∃ value, edit.run state = .ok value state) ∨
    ∃ error, edit.run state = .error error state

theorem Total.atomic {edit : EStateM ε σ α} (total : Total edit) : Atomic edit := by
  intro state error after refused
  rcases total state with ⟨value, after', run⟩
  rw [run] at refused
  cases refused

theorem Inspects.atomic {edit : EStateM ε σ α} (inspects : Inspects edit) : Atomic edit := by
  intro state error after refused
  rcases inspects state with ⟨value, run⟩ | ⟨error', run⟩
  · rw [run] at refused
    cases refused
  · rw [run] at refused
    cases refused
    rfl

theorem run_bind_ok {edit : EStateM ε σ α} {next : α → EStateM ε σ β} {state after : σ}
    {value : α} (run : edit.run state = .ok value after) :
    (edit >>= next).run state = (next value).run after := by
  show (match edit.run state with
    | .ok value after => (next value).run after
    | .error error after => .error error after) = _
  rw [run]

theorem run_bind_error {edit : EStateM ε σ α} {next : α → EStateM ε σ β} {state after : σ}
    {error : ε} (run : edit.run state = .error error after) :
    (edit >>= next).run state = .error error after := by
  show (match edit.run state with
    | .ok value after => (next value).run after
    | .error error after => .error error after) = _
  rw [run]

theorem of_run_bind {edit : EStateM ε σ α} {next : α → EStateM ε σ β} {state after : σ} {made : β}
    (run : (edit >>= next).run state = .ok made after) :
    ∃ value middle, edit.run state = .ok value middle ∧ (next value).run middle = .ok made after := by
  cases first : edit.run state with
  | ok value middle =>
    rw [run_bind_ok first] at run
    exact ⟨value, middle, rfl, run⟩
  | error error middle =>
    rw [run_bind_error first] at run
    cases run

theorem Inspects.bind {edit : EStateM ε σ α} {next : α → EStateM ε σ β}
    (inspects : Inspects edit) (rest : ∀ value, Atomic (next value)) : Atomic (edit >>= next) := by
  intro state error after refused
  rcases inspects state with ⟨value, run⟩ | ⟨error', run⟩
  · rw [run_bind_ok run] at refused
    exact rest value _ _ _ refused
  · rw [run_bind_error run] at refused
    cases refused
    rfl

theorem Atomic.bind {edit : EStateM ε σ α} {next : α → EStateM ε σ β}
    (atomic : Atomic edit) (rest : ∀ value, Total (next value)) : Atomic (edit >>= next) := by
  intro state error after refused
  cases run : edit.run state with
  | ok value middle =>
    rw [run_bind_ok run] at refused
    rcases rest value middle with ⟨value', after', total⟩
    rw [total] at refused
    cases refused
  | error error' middle =>
    rw [run_bind_error run] at refused
    cases refused
    exact atomic _ _ _ run

theorem Total.bind {edit : EStateM ε σ α} {next : α → EStateM ε σ β}
    (total : Total edit) (rest : ∀ value, Total (next value)) : Total (edit >>= next) := by
  intro state
  rcases total state with ⟨value, middle, run⟩
  rw [run_bind_ok run]
  exact rest value middle

theorem total_pure (value : α) : Total (pure value : EStateM ε σ α) :=
  fun state => ⟨value, state, rfl⟩

theorem run_map_error_iff {edit : EStateM ε σ α} {make : α → β} {state after : σ} {error : ε} :
    (make <$> edit).run state = .error error after ↔ edit.run state = .error error after := by
  rw [map_eq_pure_bind]
  cases run : edit.run state with
  | ok value middle =>
    rw [run_bind_ok run]
    constructor
    · intro refused
      cases refused
    · intro refused
      cases refused
  | error error' middle =>
    rw [run_bind_error run]
    simp

theorem total_modify (change : σ → σ) : Total (modify change : EStateM ε σ PUnit) :=
  fun state => ⟨⟨⟩, change state, rfl⟩

theorem total_set (state : σ) : Total (set state : EStateM ε σ PUnit) := fun _ => ⟨⟨⟩, state, rfl⟩

theorem inspects_get : Inspects (get : EStateM ε σ σ) := fun state => .inl ⟨state, rfl⟩

theorem inspects_throw (error : ε) : Inspects (throw error : EStateM ε σ α) :=
  fun _ => .inr ⟨error, rfl⟩

theorem Atomic.ite {condition : Prop} [Decidable condition] {yes no : EStateM ε σ α}
    (first : Atomic yes) (second : Atomic no) : Atomic (if condition then yes else no) := by
  split
  · exact first
  · exact second

theorem Total.ite {condition : Prop} [Decidable condition] {yes no : EStateM ε σ α}
    (first : Total yes) (second : Total no) : Total (if condition then yes else no) := by
  split
  · exact first
  · exact second

/-! ## What a run refuses with -/

def Throws (allowed : ε → Prop) (edit : EStateM ε σ α) : Prop :=
  ∀ state error after, edit.run state = .error error after → allowed error

section Throws

variable {allowed : ε → Prop}

theorem Total.throws {edit : EStateM ε σ α} (total : Total edit) : Throws allowed edit := by
  intro state error after refused
  rcases total state with ⟨value, after', run⟩
  rw [run] at refused
  cases refused

theorem Throws.bind {edit : EStateM ε σ α} {next : α → EStateM ε σ β}
    (first : Throws allowed edit) (rest : ∀ value, Throws allowed (next value)) :
    Throws allowed (edit >>= next) := by
  intro state error after refused
  cases run : edit.run state with
  | ok value middle =>
    rw [run_bind_ok run] at refused
    exact rest value _ _ _ refused
  | error error' middle =>
    rw [run_bind_error run] at refused
    cases refused
    exact first _ _ _ run

theorem throws_get_bind {next : σ → EStateM ε σ α} (rest : ∀ state, Throws allowed (next state)) :
    Throws allowed (get >>= next) := fun state => rest state state

end Throws

/-! ## What every run preserves -/

def leaves (edit : EStateM ε σ α) (state : σ) : σ :=
  match edit.run state with
  | .ok _ after => after
  | .error _ after => after

/-- A run's last state stands in a relation to its first. -/
def Preserves (relation : σ → σ → Prop) (edit : EStateM ε σ α) : Prop :=
  ∀ state, relation state (leaves edit state)

theorem leaves_ok {edit : EStateM ε σ α} {state after : σ} {value : α}
    (run : edit.run state = .ok value after) : leaves edit state = after := by
  rw [leaves, run]

theorem leaves_error {edit : EStateM ε σ α} {state after : σ} {error : ε}
    (run : edit.run state = .error error after) : leaves edit state = after := by
  rw [leaves, run]

theorem leaves_bind_ok {edit : EStateM ε σ α} {next : α → EStateM ε σ β} {state middle : σ}
    {value : α} (run : edit.run state = .ok value middle) :
    leaves (edit >>= next) state = leaves (next value) middle := by
  rw [leaves, run_bind_ok run, leaves]

theorem leaves_bind_pure (make : α → β) (edit : EStateM ε σ α) (state : σ) :
    leaves (edit >>= fun value => pure (make value)) state = leaves edit state := by
  cases run : edit.run state with
  | ok value after =>
    rw [leaves_bind_ok run, leaves_ok run]
    rfl
  | error error after => rw [leaves_error (run_bind_error run), leaves_error run]

@[simp] theorem leaves_get_bind (next : σ → EStateM ε σ α) (state : σ) :
    leaves (get >>= next) state = leaves (next state) state := by
  have read : (get : EStateM ε σ σ).run state = .ok state state := rfl
  exact leaves_bind_ok read

@[simp] theorem leaves_throw (error : ε) (state : σ) :
    leaves (throw error : EStateM ε σ α) state = state := rfl

@[simp] theorem leaves_pure (value : α) (state : σ) :
    leaves (pure value : EStateM ε σ α) state = state := rfl

@[simp] theorem leaves_set (state after : σ) :
    leaves (set after : EStateM ε σ PUnit) state = after := rfl

@[simp] theorem leaves_ite {condition : Prop} [Decidable condition] (yes no : EStateM ε σ α)
    (state : σ) :
    leaves (if condition then yes else no) state =
      if condition then leaves yes state else leaves no state := by
  split <;> rfl

section Preserves

variable {relation : σ → σ → Prop}

theorem Inspects.preserves {edit : EStateM ε σ α} (refl : ∀ state, relation state state)
    (inspects : Inspects edit) : Preserves relation edit := by
  intro state
  rcases inspects state with ⟨value, run⟩ | ⟨error, run⟩
  · rw [leaves_ok run]
    exact refl state
  · rw [leaves_error run]
    exact refl state

theorem preserves_pure (refl : ∀ state, relation state state) (value : α) :
    Preserves relation (pure value : EStateM ε σ α) := refl

theorem preserves_modify {change : σ → σ} (holds : ∀ state, relation state (change state)) :
    Preserves relation (modify change : EStateM ε σ PUnit) := holds

theorem Preserves.bind {edit : EStateM ε σ α} {next : α → EStateM ε σ β}
    (trans : ∀ {first middle last}, relation first middle → relation middle last →
      relation first last)
    (first : Preserves relation edit) (rest : ∀ value, Preserves relation (next value)) :
    Preserves relation (edit >>= next) := by
  intro state
  cases run : edit.run state with
  | ok value middle =>
    have step := first state
    rw [leaves_ok run] at step
    rw [leaves_bind_ok run]
    exact trans step (rest value middle)
  | error error middle =>
    have step := first state
    rw [leaves_error run] at step
    rw [leaves_error (run_bind_error run)]
    exact step

theorem preserves_get_bind {next : σ → EStateM ε σ α}
    (rest : ∀ state, relation state (leaves (next state) state)) :
    Preserves relation (get >>= next) := rest

theorem Preserves.ite {condition : Prop} [Decidable condition] {yes no : EStateM ε σ α}
    (first : Preserves relation yes) (second : Preserves relation no) :
    Preserves relation (if condition then yes else no) := by
  split
  · exact first
  · exact second

end Preserves

end EclipseOS.Foundation
