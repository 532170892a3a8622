import Mathlib.Data.List.Induction
import Mathlib.Data.List.Nodup

/-! # Display numbers

Every output has a number for the human: the next one of a counter when it is added, or
the one its configuration asks for, if that is free. -/

namespace EclipseOS.Abyss.DisplayNumbers

structure OutputEntry where
  id : Nat
  number : UInt8
  deriving DecidableEq

structure Outputs where
  entries : List OutputEntry
  nextId : Nat
  nextNumber : UInt8
  deriving DecidableEq

def saturatingAdd (number : UInt8) : UInt8 := if number = 255 then 255 else number + 1

namespace Outputs

def new : Outputs := ⟨[], 1, 1⟩

def numberTaken (outputs : Outputs) (number : UInt8) : Bool :=
  outputs.entries.any (·.number = number)

def get (outputs : Outputs) (id : Nat) : Option OutputEntry :=
  outputs.entries.find? (·.id = id)

/-- A configured number, unless some output has it. -/
def setNumber (outputs : Outputs) (id : Nat) (number : UInt8) : Outputs :=
  if outputs.numberTaken number then outputs
  else
    { outputs with
      entries := outputs.entries.map fun e => if e.id = id then { e with number } else e }

/-- An output is added with the counter's number. -/
def add (outputs : Outputs) : Outputs where
  entries := outputs.entries ++ [⟨outputs.nextId, outputs.nextNumber⟩]
  nextId := outputs.nextId + 1
  nextNumber := saturatingAdd outputs.nextNumber

def remove (outputs : Outputs) (id : Nat) : Outputs :=
  { outputs with entries := outputs.entries.filter (·.id ≠ id) }

inductive Event where
  | add
  | remove (id : Nat)
  | setNumber (id : Nat) (number : UInt8)
  deriving DecidableEq

def step (outputs : Outputs) : Event → Outputs
  | .add => outputs.add
  | .remove id => outputs.remove id
  | .setNumber id number => outputs.setNumber id number

def run (events : List Event) : Outputs := events.foldl step new

def Distinct (outputs : Outputs) : Prop := (outputs.entries.map (·.number)).Nodup

/-- Handles are of one output each, and none is to be handed out again. -/
structure Handled (outputs : Outputs) : Prop where
  distinct : (outputs.entries.map (·.id)).Nodup
  used : ∀ e ∈ outputs.entries, e.id < outputs.nextId

variable {outputs : Outputs} {id other : Nat} {number : UInt8} {event : Event}
  {events past : List Event}

@[simp] theorem run_snoc : run (past ++ [event]) = (run past).step event := by
  simp [run]

theorem numberTaken_iff :
    outputs.numberTaken number = true ↔ number ∈ outputs.entries.map (·.number) := by
  simp [numberTaken]

theorem Handled.step (handled : outputs.Handled) : (outputs.step event).Handled := by
  cases event with
  | add =>
    constructor
    · have fresh : outputs.nextId ∉ outputs.entries.map (·.id) := by
        intro member
        rcases List.mem_map.mp member with ⟨e, isEntry, same⟩
        exact absurd same (Nat.ne_of_lt (handled.used e isEntry))
      simp only [Outputs.step, add, List.map_append, List.map_cons, List.map_nil]
      exact List.nodup_append.mpr ⟨handled.distinct, List.nodup_singleton _, by
        intro a isOld b isNew same
        rw [List.mem_singleton.mp isNew] at same
        exact fresh (same ▸ isOld)⟩
    · intro e member
      rcases List.mem_append.mp member with old | new
      · exact Nat.lt_succ_of_lt (handled.used e old)
      · rw [List.mem_singleton.mp new]
        exact Nat.lt_succ_self _
  | remove id =>
    constructor
    · exact handled.distinct.sublist (List.filter_sublist.map _)
    · exact fun e member => handled.used e (List.mem_of_mem_filter member)
  | setNumber id number =>
    simp only [Outputs.step, setNumber]
    split_ifs
    · exact handled
    · have ids : (outputs.entries.map fun e => if e.id = id then { e with number } else e).map
          (·.id) = outputs.entries.map (·.id) := by
        rw [List.map_map]
        apply List.map_congr_left
        intro e _
        dsimp only [Function.comp_apply]
        split_ifs <;> rfl
      constructor
      · exact ids ▸ handled.distinct
      · intro e member
        rcases List.mem_map.mp member with ⟨old, isEntry, rfl⟩
        split_ifs <;> exact handled.used old isEntry

theorem handled_run : (run events).Handled := by
  induction events using List.reverseRecOn with
  | nil => exact ⟨List.nodup_nil, fun e member => by cases member⟩
  | append_singleton past event induction => exact run_snoc ▸ induction.step

theorem get_step {before after : OutputEntry} (handled : outputs.Handled)
    (was : outputs.get id = some before) (is : (outputs.step event).get id = some after) :
    after.number = before.number ∨ event = .setNumber id after.number := by
  cases event with
  | add =>
    simp only [Outputs.step, add, get, List.find?_append] at is
    rw [show outputs.entries.find? (·.id = id) = some before from was] at is
    cases is
    exact .inl rfl
  | remove other =>
    have member : after ∈ outputs.entries := List.mem_of_mem_filter (List.mem_of_find?_eq_some is)
    have isOf : after.id = id := by simpa using List.find?_some is
    have wasOf : before.id = id := by simpa using List.find?_some was
    have same : after = before :=
      List.inj_on_of_nodup_map handled.distinct member (List.mem_of_find?_eq_some was)
        (isOf.trans wasOf.symm)
    exact .inl (by rw [same])
  | setNumber other number =>
    simp only [Outputs.step, setNumber] at is
    split_ifs at is with taken
    · rw [was] at is
      cases is
      exact .inl rfl
    · have member := List.mem_of_find?_eq_some is
      have isOf : after.id = id := by simpa using List.find?_some is
      rcases List.mem_map.mp member with ⟨old, isEntry, rfl⟩
      split_ifs at isOf ⊢ with own
      · exact .inr (by rw [← isOf, own])
      · have wasOf : before.id = id := by simpa using List.find?_some was
        have same : old = before :=
          List.inj_on_of_nodup_map handled.distinct isEntry (List.mem_of_find?_eq_some was)
            (isOf.trans wasOf.symm)
        exact .inl (by rw [same])

theorem distinct_add :
    outputs.add.Distinct ↔ outputs.Distinct ∧ outputs.numberTaken outputs.nextNumber = false := by
  rw [← Bool.not_eq_true, numberTaken_iff]
  simp only [Distinct, add, List.map_append, List.map_cons, List.map_nil, List.nodup_append,
    List.nodup_singleton, true_and, List.mem_singleton, ne_eq]
  constructor
  · intro ⟨old, apart⟩
    exact ⟨old, fun member => apart _ member _ rfl rfl⟩
  · intro ⟨old, free⟩
    refine ⟨old, ?_⟩
    rintro number isOld _ rfl same
    exact free (same ▸ isOld)

theorem Distinct.remove (distinct : outputs.Distinct) : (outputs.remove id).Distinct :=
  List.Nodup.sublist (List.filter_sublist.map _) distinct

theorem Distinct.setNumber (distinct : outputs.Distinct) (handled : outputs.Handled) :
    (outputs.setNumber id number).Distinct := by
  unfold Outputs.setNumber
  split_ifs with taken
  · exact distinct
  have free : number ∉ outputs.entries.map (·.number) := fun member =>
    taken (numberTaken_iff.mpr member)
  unfold Distinct
  rw [List.map_map]
  have ids := handled.distinct
  apply List.Nodup.map_on _ (List.Nodup.of_map _ ids)
  intro a isA b isB same
  dsimp only [Function.comp_apply] at same
  split_ifs at same with ownA ownB ownB
  · exact List.inj_on_of_nodup_map ids isA isB (ownA.trans ownB.symm)
  · exact absurd (List.mem_map.mpr ⟨b, isB, same.symm⟩) free
  · exact absurd (List.mem_map.mpr ⟨a, isA, same⟩) free
  · exact List.inj_on_of_nodup_map distinct isA isB same

/-- At every moment no two outputs have one number, and an output's number changes only by
its own override. -/
structure NumbersHold (events : List Event) : Prop where
  unique : ∀ past, past <+: events → (run past).Distinct
  stable : ∀ past event, past ++ [event] <+: events → ∀ id before after,
    (run past).get id = some before → (run (past ++ [event])).get id = some after →
      after.number = before.number ∨ event = .setNumber id after.number

/-- Numbers are unique exactly in the runs that add outputs only while the counter's number
is free. -/
theorem numbers_hold_iff (events : List Event) :
    NumbersHold events ↔ ∀ past, past ++ [.add] <+: events →
      (run past).numberTaken (run past).nextNumber = false := by
  constructor
  · intro holds past reached
    have distinct := holds.unique _ reached
    rw [run_snoc] at distinct
    exact (distinct_add.mp distinct).2
  · intro free
    constructor
    · intro past
      induction past using List.reverseRecOn with
      | nil => exact fun _ => List.nodup_nil
      | append_singleton past event induction =>
        intro reached
        have distinct := induction ((List.prefix_append _ _).trans reached)
        rw [run_snoc]
        cases event with
        | add => exact distinct_add.mpr ⟨distinct, free past reached⟩
        | remove id => exact distinct.remove
        | setNumber id number => exact distinct.setNumber handled_run
    · intro past event reached id before after was is
      rw [run_snoc] at is
      exact get_step handled_run was is

/-- An override takes the number the counter hands out next. -/
theorem numbers_clash : ¬NumbersHold [.add, .setNumber 1 2, .add] := by
  intro holds
  have distinct := holds.unique _ List.prefix_rfl
  exact absurd distinct (by unfold Distinct; decide)

end Outputs

end EclipseOS.Abyss.DisplayNumbers
