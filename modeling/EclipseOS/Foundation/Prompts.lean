import Mathlib.Data.Finset.Erase
import Mathlib.Data.Finset.Insert
import Mathlib.Data.List.Nodup

/-! # Prompts

A queue of subjects that wait for a human's answer, each known by its key, with at most
one on screen. A subject that waits is asked about once: it is in the queue once, or on
screen. -/

namespace EclipseOS.Foundation

variable {κ α : Type} [DecidableEq κ]

/-- What waits, what is shown, and what the human does not want to be asked about. -/
structure Prompts (κ α : Type) where
  queue : List α
  onScreen : Option κ
  declined : Finset κ

namespace Prompts

def empty : Prompts κ α := ⟨[], none, ∅⟩

variable (key : α → κ) (prompts : Prompts κ α)

/-- A subject is not asked about: it is shown, declined, or in the queue. -/
def skips (queue : List α) (subject : α) : Bool :=
  prompts.onScreen = some (key subject) ∨ key subject ∈ prompts.declined ∨
    queue.any (key · = key subject)

/-- Every subject that should wait, waits, behind those that do. -/
def enqueue (queue subjects : List α) : List α :=
  subjects.foldl
    (fun queue subject => if prompts.skips key queue subject then queue else queue ++ [subject])
    queue

def refill (withheld : List α) : Prompts κ α :=
  { prompts with
    queue := prompts.enqueue key
      (prompts.queue.filter fun q => withheld.any (key · = key q)) withheld }

/-- The oldest subject that is not declined, and what waits behind it. -/
def pop (declined : Finset κ) : List α → List α × Option α
  | [] => ([], none)
  | subject :: queue =>
    if key subject ∈ declined then pop declined queue else (queue, some subject)

/-- The next subject to show, while none is on screen. -/
def next : Prompts κ α × Option α :=
  if prompts.onScreen.isSome then (prompts, none)
  else
    match pop key prompts.declined prompts.queue with
    | (queue, none) => ({ prompts with queue := queue }, none)
    | (queue, some subject) =>
      ({ prompts with queue := queue, onScreen := some (key subject) }, some subject)

def close : Prompts κ α := { prompts with onScreen := none }

/-- The human does not want to be asked about a key. -/
def decline (declined : κ) : Prompts κ α :=
  { prompts with declined := insert declined prompts.declined }

/-- A subject is asked about again, unless it waits or is shown already. -/
def again (subject : α) : Prompts κ α × Bool :=
  let prompts := { prompts with declined := prompts.declined.erase (key subject) }
  if prompts.onScreen = some (key subject) ∨ prompts.queue.any (key · = key subject) then
    (prompts, false)
  else ({ prompts with queue := prompts.queue ++ [subject] }, true)

/-- No key waits twice, and none that is on screen waits. -/
structure Sound : Prop where
  nodup : (prompts.queue.map key).Nodup
  apart : ∀ shown, prompts.onScreen = some shown → shown ∉ prompts.queue.map key

variable {key prompts} {subject : α} {queue subjects withheld : List α} {k : κ}

theorem any_key : queue.any (key · = k) = true ↔ k ∈ queue.map key := by
  simp [List.any_eq_true, List.mem_map]

omit [DecidableEq κ] in
theorem sound_empty : Sound key (empty : Prompts κ α) := ⟨List.nodup_nil, nofun⟩

theorem enqueue_cons (prompts : Prompts κ α) (queue : List α) (subject : α) (subjects : List α) :
    prompts.enqueue key queue (subject :: subjects) =
      prompts.enqueue key
        (if prompts.skips key queue subject then queue else queue ++ [subject]) subjects := rfl

theorem skips_iff : prompts.skips key queue subject = true ↔
    prompts.onScreen = some (key subject) ∨ key subject ∈ prompts.declined ∨
      key subject ∈ queue.map key := by
  rw [skips, decide_eq_true_eq, any_key]

theorem mem_enqueue_of_mem (member : k ∈ queue.map key) :
    k ∈ (prompts.enqueue key queue subjects).map key := by
  induction subjects generalizing queue with
  | nil => exact member
  | cons subject subjects induction =>
    rw [enqueue_cons]
    apply induction
    split
    · exact member
    · rw [List.map_append]
      exact List.mem_append_left _ member

theorem asked_enqueue (waits : subject ∈ subjects) :
    prompts.onScreen = some (key subject) ∨ key subject ∈ prompts.declined ∨
      key subject ∈ (prompts.enqueue key queue subjects).map key := by
  induction subjects generalizing queue with
  | nil => cases waits
  | cons first subjects induction =>
    rw [enqueue_cons]
    rcases List.mem_cons.mp waits with rfl | later
    · by_cases skipped : prompts.skips key queue subject = true
      · rw [if_pos skipped]
        exact (skips_iff.mp skipped).imp_right (.imp_right mem_enqueue_of_mem)
      · rw [if_neg skipped]
        exact .inr (.inr (mem_enqueue_of_mem (by simp)))
    · exact induction later

theorem enqueue_sound (sound : Sound key { prompts with queue := queue }) :
    Sound key { prompts with queue := prompts.enqueue key queue subjects } := by
  induction subjects generalizing queue with
  | nil => exact sound
  | cons subject subjects induction =>
    rw [enqueue_cons]
    apply induction
    split
    · exact sound
    · rename_i skipped
      rw [skips_iff] at skipped
      have notQueued : key subject ∉ queue.map key := fun queued =>
        skipped (.inr (.inr queued))
      refine ⟨?_, ?_⟩
      · rw [List.map_append, List.map_singleton, ← List.concat_eq_append]
        exact sound.nodup.concat notQueued
      · intro shown isShown member
        rw [List.map_append, List.map_singleton] at member
        rcases List.mem_append.mp member with queued | last
        · exact sound.apart shown isShown queued
        · have same := List.mem_singleton.mp last
          exact skipped (.inl (isShown.trans (congrArg some same)))

omit [DecidableEq κ] in
theorem Sound.sublist (sound : Sound key prompts) (fewer : queue.Sublist prompts.queue) :
    Sound key { prompts with queue := queue } where
  nodup := sound.nodup.sublist (fewer.map key)
  apart shown isShown member := sound.apart shown isShown ((fewer.map key).subset member)

theorem Sound.refill (sound : Sound key prompts) (withheld : List α) :
    Sound key (prompts.refill key withheld) :=
  enqueue_sound (sound.sublist List.filter_sublist)

theorem asked_refill (waits : subject ∈ withheld) :
    prompts.onScreen = some (key subject) ∨ key subject ∈ prompts.declined ∨
      key subject ∈ (prompts.refill key withheld).queue.map key :=
  asked_enqueue waits

theorem pop_sublist (declined : Finset κ) (queue : List α) :
    (pop key declined queue).1.Sublist queue ∧
      ∀ subject, (pop key declined queue).2 = some subject →
        (subject :: (pop key declined queue).1).Sublist queue ∧ key subject ∉ declined := by
  induction queue with
  | nil => exact ⟨.slnil, nofun⟩
  | cons first queue induction =>
    rw [pop]
    split
    · refine ⟨induction.1.cons _, fun subject popped => ?_⟩
      rcases induction.2 subject popped with ⟨sublist, undeclined⟩
      exact ⟨sublist.cons _, undeclined⟩
    · rename_i undeclined
      refine ⟨List.sublist_cons_self .., ?_⟩
      rintro _ ⟨⟩
      exact ⟨.refl _, undeclined⟩

theorem Sound.next (sound : Sound key prompts) : Sound key (prompts.next key).1 := by
  rcases @pop_sublist _ _ _ key prompts.declined prompts.queue with ⟨fewer, popped⟩
  unfold Prompts.next
  split
  · exact sound
  · split
    · rename_i queue split
      rw [split] at fewer
      exact sound.sublist fewer
    · rename_i queue subject split
      rw [split] at fewer popped
      rcases popped subject rfl with ⟨sublist, -⟩
      refine ⟨sound.nodup.sublist (fewer.map key), ?_⟩
      rintro _ ⟨⟩
      have nodup := sound.nodup.sublist (sublist.map key)
      exact (List.nodup_cons.mp nodup).1

theorem next_declined : (prompts.next key).1.declined = prompts.declined := by
  unfold Prompts.next
  split
  · rfl
  · split <;> rfl

theorem again_declined :
    (prompts.again key subject).1.declined = prompts.declined.erase (key subject) := by
  unfold Prompts.again
  dsimp only
  split <;> rfl

theorem again_onScreen : (prompts.again key subject).1.onScreen = prompts.onScreen := by
  unfold Prompts.again
  dsimp only
  split <;> rfl

theorem next_onScreen (shown : prompts.onScreen = some k) :
    (prompts.next key).1.onScreen = some k := by
  unfold Prompts.next
  rw [if_pos (by simp [shown])]
  exact shown

theorem next_shows (shown : (prompts.next key).2 = some subject) :
    prompts.onScreen = none ∧ (prompts.next key).1.onScreen = some (key subject) ∧
      key subject ∉ prompts.declined ∧ subject ∈ prompts.queue := by
  rcases @pop_sublist _ _ _ key prompts.declined prompts.queue with ⟨-, popped⟩
  unfold Prompts.next at shown ⊢
  split at shown
  · cases shown
  · rename_i free
    split at shown
    · cases shown
    · rename_i queue first split
      cases shown
      rw [split] at popped
      rcases popped subject rfl with ⟨sublist, undeclined⟩
      refine ⟨by simpa using free, ?_, undeclined, sublist.subset (List.mem_cons_self ..)⟩
      rw [if_neg free]

omit [DecidableEq κ] in
theorem Sound.close (sound : Sound key prompts) : Sound key prompts.close :=
  ⟨sound.nodup, nofun⟩

theorem Sound.decline (sound : Sound key prompts) (declined : κ) :
    Sound key (prompts.decline declined) :=
  ⟨sound.nodup, sound.apart⟩

theorem Sound.again (sound : Sound key prompts) (subject : α) :
    Sound key (prompts.again key subject).1 := by
  unfold Prompts.again
  dsimp only
  split
  · exact ⟨sound.nodup, sound.apart⟩
  · rename_i neither
    rw [any_key, not_or] at neither
    rcases neither with ⟨notShown, notQueued⟩
    refine ⟨?_, ?_⟩
    · rw [List.map_append, List.map_singleton, ← List.concat_eq_append]
      exact sound.nodup.concat notQueued
    · intro shown isShown member
      rw [List.map_append, List.map_singleton] at member
      rcases List.mem_append.mp member with queued | last
      · exact sound.apart shown isShown queued
      · exact notShown (isShown.trans (congrArg some (List.mem_singleton.mp last)))

end Prompts

end EclipseOS.Foundation
