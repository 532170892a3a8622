import EclipseOS.Foundation.History

/-! # The commit slot's arming rules

A slot commits a task on a physical Enter. That is safe only while every condition
has held, unbroken, for the arming delay. -/

namespace EclipseOS.Abyss.Slot

open Foundation

def armMinMs : Nat := 300

def armMaxMs : Nat := 2000

/-- Sampled each time any of them may have changed. `geometry` is the host's
position, size and scale folded into one value. -/
structure Conditions where
  preview : Option UInt64
  previewRefused : Bool
  policyAvailable : Bool
  hostFocused : Bool
  fullyVisible : Bool
  geometry : UInt64
  fits : Bool
  fullscreen : Bool
  unlocked : Bool
  modalShowing : Bool
  deriving DecidableEq

inductive Disarm where
  | overflow
  | policyUnavailable
  | locked
  deriving DecidableEq

inductive State where
  | previewing
  | armed
  | disarmed (reason : Disarm)
  | suspended
  | refused
  deriving DecidableEq

/-- What an unmodified physical Enter in the host does. -/
inductive Enter where
  | commit (preview : UInt64)
  | openModal
  | drop
  deriving DecidableEq

/-- The first condition that keeps the slot from arming, as the state it puts the
slot in. -/
def blocker (c : Conditions) : Option State :=
  if !c.policyAvailable then
    some (.disarmed .policyUnavailable)
  else if !c.unlocked then
    some (.disarmed .locked)
  else if c.previewRefused then
    some .refused
  else if !c.fits then
    some (.disarmed .overflow)
  else if c.fullscreen || !c.hostFocused || !c.fullyVisible || c.modalShowing then
    some .suspended
  else if c.preview.isNone then
    some .previewing
  else
    none

structure Arming where
  armMs : Nat
  /-- The conditions the timer started under, and when. -/
  since : Option (Conditions × Nat)
  last : Option Conditions
  deriving DecidableEq

namespace Arming

/-- Policy owns the delay; anything outside the bounds is clamped. -/
def new (armMs : Nat) : Arming := ⟨max armMinMs (min armMs armMaxMs), none, none⟩

def observe (arming : Arming) (c : Conditions) (nowMs : Nat) : Arming :=
  let ready := (blocker c).isNone
  let since := match arming.since with
    | some (was, t0) =>
      if ready ∧ was = c then some (was, t0) else if ready then some (c, nowMs) else none
    | none => if ready then some (c, nowMs) else none
  { arming with last := some c, since }

def state (arming : Arming) (nowMs : Nat) : State :=
  match arming.last with
  | none => .previewing
  | some c =>
    match blocker c with
    | some state => state
    | none =>
      match arming.since with
      | some (_, t0) => if arming.armMs ≤ nowMs - t0 then .armed else .previewing
      | none => .previewing

def enter (arming : Arming) (nowMs : Nat) : Enter :=
  match arming.last with
  | none => .drop
  | some c =>
    match arming.state nowMs with
    | .armed =>
      match c.preview with
      | some preview => .commit preview
      | none => .drop
    | .disarmed .overflow => .openModal
    | .suspended => if c.fullscreen ∧ c.hostFocused then .openModal else .drop
    | _ => .drop

end Arming

namespace Conditions

/-- Every condition holds, and `preview` is the preview on show. -/
structure Ready (c : Conditions) (preview : UInt64) : Prop where
  policyAvailable : c.policyAvailable
  unlocked : c.unlocked
  accepted : c.previewRefused = false
  fits : c.fits
  windowed : c.fullscreen = false
  hostFocused : c.hostFocused
  fullyVisible : c.fullyVisible
  uncovered : c.modalShowing = false
  preview : c.preview = some preview

theorem ready_of_blocker {c : Conditions} {preview : UInt64} (unblocked : blocker c = none)
    (shown : c.preview = some preview) : c.Ready preview := by
  unfold blocker at unblocked
  split_ifs at unblocked with policy locked refused overflow suspended
  simp only [Bool.not_eq_true', Bool.not_eq_false, Bool.or_eq_true, not_or, Bool.not_eq_true]
    at policy locked refused overflow suspended
  rcases suspended with ⟨⟨⟨windowed, focused⟩, visible⟩, uncovered⟩
  exact ⟨policy, locked, refused, overflow, windowed, focused, visible, uncovered, shown⟩

end Conditions

namespace Arming

/-- The slot after a history of observations. -/
def watch (armMs : Nat) (observed : List (Conditions × Nat)) : Arming :=
  observed.foldl (fun arming call => arming.observe call.1 call.2) (new armMs)

/-- What the slot remembers of what it was shown. -/
structure Tracks (armMs : Nat) (observed : List (Conditions × Nat)) (arming : Arming) : Prop where
  armMs : arming.armMs = (new armMs).armMs
  last : arming.last = observed.getLast?.map (·.1)
  since : ∀ c t0, arming.since = some (c, t0) → blocker c = none ∧
    ∃ earlier later, observed = earlier ++ (c, t0) :: later ∧ ∀ call ∈ later, call.1 = c

/-- The timer starts at the observation it keeps, and goes on only under the same
conditions. -/
theorem since_observe {arming : Arming} {c was : Conditions} {nowMs t0 : Nat}
    (running : (arming.observe c nowMs).since = some (was, t0)) :
    blocker c = none ∧ was = c ∧ (arming.since = some (c, t0) ∨ t0 = nowMs) := by
  unfold observe at running
  cases before : arming.since with
  | none =>
    simp only [before] at running
    split at running
    · rename_i ready
      cases running
      exact ⟨Option.isNone_iff_eq_none.mp ready, rfl, .inr rfl⟩
    · cases running
  | some timer =>
    rcases timer with ⟨was', t0'⟩
    simp only [before] at running
    split at running
    · rename_i same
      rcases same with ⟨ready, rfl⟩
      cases running
      exact ⟨Option.isNone_iff_eq_none.mp ready, rfl, .inl rfl⟩
    · split at running
      · rename_i ready
        cases running
        exact ⟨Option.isNone_iff_eq_none.mp ready, rfl, .inr rfl⟩
      · cases running

theorem Tracks.observe {armMs : Nat} {observed : List (Conditions × Nat)} {arming : Arming}
    (tracks : Tracks armMs observed arming) (call : Conditions × Nat) :
    Tracks armMs (observed ++ [call]) (arming.observe call.1 call.2) where
  armMs := tracks.armMs
  last := by simp [Arming.observe]
  since := by
    intro c t0 running
    rcases since_observe running with ⟨ready, rfl, running | rfl⟩
    · rcases tracks.since _ _ running with ⟨_, earlier, later, rfl, same⟩
      refine ⟨ready, earlier, later ++ [call], by simp, ?_⟩
      intro other member
      rcases List.mem_append.mp member with member | member
      · exact same other member
      · rw [List.mem_singleton.mp member]
    · exact ⟨ready, observed, [], rfl, by simp⟩

theorem watch_tracks (armMs : Nat) (observed : List (Conditions × Nat)) :
    Tracks armMs observed (watch armMs observed) := by
  induction observed using List.reverseRecOn with
  | nil => exact ⟨rfl, rfl, nofun⟩
  | append_singleton past call induction =>
    rw [watch, List.foldl_append]
    exact induction.observe call

theorem of_enter_commit {arming : Arming} {nowMs : Nat} {preview : UInt64}
    (committed : arming.enter nowMs = .commit preview) :
    ∃ c was t0, arming.last = some c ∧ blocker c = none ∧ c.preview = some preview ∧
      arming.since = some (was, t0) ∧ arming.armMs ≤ nowMs - t0 := by
  unfold enter at committed
  split at committed
  · cases committed
  · rename_i c shown
    split at committed
    · rename_i armed
      split at committed
      · rename_i preview' hasPreview
        cases committed
        unfold state at armed
        simp only [shown] at armed
        cases unblocked : blocker c with
        | some state =>
          simp only [unblocked] at armed
          have notArmed : blocker c ≠ some .armed := by
            unfold blocker
            split_ifs <;> simp
          rw [armed] at unblocked
          exact absurd unblocked notArmed
        | none =>
          simp only [unblocked] at armed
          cases running : arming.since with
          | none => simp [running] at armed
          | some timer =>
            rcases timer with ⟨was, t0⟩
            simp only [running] at armed
            split at armed
            · rename_i elapsed
              exact ⟨c, was, t0, shown, unblocked, hasPreview, rfl, elapsed⟩
            · cases armed
      · cases committed
    · cases committed
    · split at committed <;> cases committed
    · cases committed

theorem last_of_same {earlier later : List (Conditions × Nat)} {c was : Conditions} {t0 : Nat}
    (same : ∀ call ∈ later, call.1 = was)
    (last : some c = (earlier ++ (was, t0) :: later).getLast?.map (·.1)) : c = was := by
  rcases List.eq_nil_or_concat later with rfl | ⟨middle, final, rfl⟩
  · simpa using last
  · have lastCall : c = final.1 := by
      rw [List.concat_eq_append, ← List.cons_append, ← List.append_assoc,
        List.getLast?_concat] at last
      exact Option.some.inj last
    exact lastCall.trans (same final (by simp))

/-- What is committed at `t` was on show, ready and under unchanged conditions, at
every observation of the arming delay before `t` and at the one before that. -/
theorem commits_unbroken (armMs : Nat) (observed : List (Conditions × Nat))
    (ordered : Ordered observed) (t : Nat) (preview : UInt64)
    (committed : (watch armMs observed).enter t = .commit preview) :
    (∀ call ∈ observed, t < call.2 + (new armMs).armMs → call.1.Ready preview) ∧
      ∃ earlier c t0 later, observed = earlier ++ (c, t0) :: later ∧ c.Ready preview ∧
        (∀ call ∈ later, call.1 = c) ∧ t0 + (new armMs).armMs ≤ t := by
  have tracks := watch_tracks armMs observed
  rcases of_enter_commit committed with ⟨c, was, t0, last, unblocked, shown, running, elapsed⟩
  rcases tracks.since _ _ running with ⟨_, earlier, later, split, same⟩
  have current : c = was := last_of_same same (split ▸ last.symm.trans tracks.last)
  have ready : was.Ready preview := Conditions.ready_of_blocker (current ▸ unblocked) (current ▸ shown)
  have positive : armMinMs ≤ (new armMs).armMs := Nat.le_max_left _ _
  have minimum : armMinMs = 300 := rfl
  rw [tracks.armMs] at elapsed
  refine ⟨?_, earlier, was, t0, later, split, ready, same, by omega⟩
  intro call member recent
  rw [split] at member ordered
  rcases List.mem_append.mp member with member | member
  · have before := (ordered_snoc.mp ordered.before).2 call member
    simp only at before
    omega
  · rcases List.mem_cons.mp member with rfl | member
    · exact ready
    · exact same call member ▸ ready

def onShow : Conditions :=
  ⟨some 7, false, true, true, true, 1, true, false, true, false⟩

/-- A moved host starts the delay again. -/
theorem commits_unbroken_after_move :
    (watch 500 [(onShow, 0), ({ onShow with geometry := 2 }, 400)]).enter 900 = .commit 7 ∧
      ∃ earlier c t0 later,
        [(onShow, 0), ({ onShow with geometry := 2 }, 400)] = earlier ++ (c, t0) :: later ∧
          c.Ready 7 ∧ (∀ call ∈ later, call.1 = c) ∧ t0 + 500 ≤ 900 :=
  ⟨by decide, (commits_unbroken 500 [(onShow, 0), ({ onShow with geometry := 2 }, 400)]
    (by decide) 900 7 (by decide)).2⟩

end Arming

end EclipseOS.Abyss.Slot
