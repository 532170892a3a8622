import Mathlib.Data.List.Induction

/-! # What holds along a history

A machine takes its inputs one at a time. What is said of it refers to the whole
history of inputs, and is shown for one input more. -/

namespace EclipseOS.Foundation

variable {ι σ : Type}

/-- A condition on each input in the state it finds. -/
def Along (step : σ → ι → σ) (meets : σ → ι → Prop) : σ → List ι → Prop
  | _, [] => True
  | state, input :: inputs =>
    meets state input ∧ Along step meets (step state input) inputs

variable {step : σ → ι → σ} {meets : σ → ι → Prop} {state : σ}

instance [∀ state input, Decidable (meets state input)] :
    ∀ state inputs, Decidable (Along step meets state inputs)
  | _, [] => inferInstanceAs (Decidable True)
  | state, input :: inputs =>
    have : Decidable (Along step meets (step state input) inputs) :=
      instDecidableAlong (step state input) inputs
    inferInstanceAs (Decidable (_ ∧ _))

theorem along_append {before after : List ι} :
    Along step meets state (before ++ after) ↔
      Along step meets state before ∧ Along step meets (before.foldl step state) after := by
  induction before generalizing state with
  | nil => simp [Along]
  | cons input before induction =>
    rw [List.cons_append, Along, Along, induction, List.foldl_cons, and_assoc]

theorem along_snoc {past : List ι} {input : ι} :
    Along step meets state (past ++ [input]) ↔
      Along step meets state past ∧ meets (past.foldl step state) input := by
  simp [along_append, Along]

/-- Conditions that agree wherever an invariant holds agree along every history. -/
theorem along_congr {meets' : σ → ι → Prop} {invariant : σ → Prop}
    (keeps : ∀ state input, invariant state → invariant (step state input))
    (agree : ∀ state input, invariant state → (meets state input ↔ meets' state input))
    (start : invariant state) (inputs : List ι) :
    Along step meets state inputs ↔ Along step meets' state inputs := by
  induction inputs generalizing state with
  | nil => exact Iff.rfl
  | cons input inputs induction =>
    rw [Along, Along, agree state input start, induction (keeps state input start)]

/-- A condition on each input after what came before it. -/
def Throughout (fits : List ι → ι → Prop) (inputs : List ι) : Prop :=
  Along (fun past input => past ++ [input]) fits [] inputs

instance {fits : List ι → ι → Prop} [∀ past input, Decidable (fits past input)]
    (inputs : List ι) : Decidable (Throughout fits inputs) :=
  inferInstanceAs (Decidable (Along _ _ _ _))

theorem throughout_snoc {fits : List ι → ι → Prop} {past : List ι} {input : ι} :
    Throughout fits (past ++ [input]) ↔ Throughout fits past ∧ fits past input := by
  have kept : ∀ before inputs : List ι,
      inputs.foldl (fun past input => past ++ [input]) before = before ++ inputs := by
    intro before inputs
    induction inputs generalizing before with
    | nil => simp
    | cons input inputs induction => simp [induction]
  rw [Throughout, along_snoc, kept, List.nil_append, Throughout]

theorem not_along {inputs : List ι} (fails : ¬Along step meets state inputs) :
    ∃ before input after, inputs = before ++ input :: after ∧
      ¬meets (before.foldl step state) input := by
  induction inputs generalizing state with
  | nil => exact absurd trivial fails
  | cons input inputs induction =>
    by_cases now : meets state input
    · rcases induction fun rest => fails ⟨now, rest⟩ with
        ⟨before, other, after, rfl, failed⟩
      exact ⟨input :: before, other, after, rfl, failed⟩
    · exact ⟨[], input, inputs, rfl, now⟩

/-- What holds at the start and is kept by one input more, of every history that fits. -/
@[elab_as_elim]
theorem history (fits : List ι → Prop) {holds : List ι → Prop}
    (shrinks : ∀ past input, fits (past ++ [input]) → fits past) (start : holds [])
    (keeps : ∀ past input, fits (past ++ [input]) → holds past → holds (past ++ [input]))
    (inputs : List ι) (fit : fits inputs) : holds inputs := by
  induction inputs using List.reverseRecOn with
  | nil => exact start
  | append_singleton past input induction =>
    exact keeps past input fit (induction (shrinks past input fit))

theorem snoc_eq_split {past before after : List ι} {last input : ι} :
    past ++ [last] = before ++ input :: after ↔
      (before = past ∧ input = last ∧ after = []) ∨
        ∃ middle, after = middle ++ [last] ∧ past = before ++ input :: middle := by
  constructor
  · intro split
    rcases List.eq_nil_or_concat after with rfl | ⟨middle, tail, rfl⟩
    · rcases List.append_inj' split rfl with ⟨same, last⟩
      exact .inl ⟨same.symm, (List.head_eq_of_cons_eq last).symm, rfl⟩
    · rw [List.concat_eq_append, ← List.cons_append, ← List.append_assoc] at split
      rcases List.append_inj' split rfl with ⟨same, last⟩
      rw [List.concat_eq_append, List.head_eq_of_cons_eq last]
      exact .inr ⟨middle, rfl, same⟩
  · rintro (⟨rfl, rfl, rfl⟩ | ⟨middle, rfl, rfl⟩)
    · rfl
    · simp

/-- Stamped inputs, none before the one it follows. -/
def Ordered (calls : List (ι × Nat)) : Prop := (calls.map (·.2)).Pairwise (· ≤ ·)

instance (calls : List (ι × Nat)) : Decidable (Ordered calls) :=
  inferInstanceAs (Decidable (List.Pairwise _ _))

theorem ordered_snoc {past : List (ι × Nat)} {last : ι × Nat} :
    Ordered (past ++ [last]) ↔ Ordered past ∧ ∀ call ∈ past, call.2 ≤ last.2 := by
  rw [Ordered, List.map_append, List.pairwise_append]
  simp only [List.map_cons, List.map_nil, List.pairwise_singleton, true_and, List.mem_map,
    List.mem_singleton]
  constructor
  · rintro ⟨sorted, before⟩
    exact ⟨sorted, fun call member => before _ ⟨call, member, rfl⟩ _ rfl⟩
  · rintro ⟨sorted, before⟩
    refine ⟨sorted, ?_⟩
    rintro _ ⟨call, member, rfl⟩ _ rfl
    exact before call member

theorem Ordered.left {before after : List (ι × Nat)} (ordered : Ordered (before ++ after)) :
    Ordered before := by
  unfold Ordered at ordered ⊢
  exact ordered.sublist (List.Sublist.map _ (List.sublist_append_left before after))

theorem Ordered.before {before after : List (ι × Nat)} {call : ι × Nat}
    (ordered : Ordered (before ++ call :: after)) : Ordered (before ++ [call]) := by
  unfold Ordered at ordered ⊢
  refine ordered.sublist (List.Sublist.map _ ?_)
  exact List.Sublist.append_left (List.singleton_sublist.mpr (List.mem_cons_self ..)) before

/-- The value in force at `moment`, when each stamped value stands until the next. -/
def inForce (values : List (ι × Nat)) (moment : Nat) : Option ι :=
  (values.filter (·.2 ≤ moment)).getLast?.map (·.1)

theorem inForce_snoc {values : List (ι × Nat)} {value : ι} {stamp moment : Nat} :
    inForce (values ++ [(value, stamp)]) moment =
      if stamp ≤ moment then some value else inForce values moment := by
  unfold inForce
  rw [List.filter_append]
  by_cases reached : stamp ≤ moment
  · simp [reached]
  · simp [reached]

end EclipseOS.Foundation
