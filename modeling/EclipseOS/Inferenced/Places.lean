import EclipseOS.Inferenced.Effects

/-! # Places

What a thread can rely on where it is, whatever the others do. -/

namespace EclipseOS.Inferenced.Slots

open Foundation

variable {τ : Type}

namespace Pc

def refs : Pc τ → List (SlotId τ)
  | found _ slot | locked _ slot | closedSeen _ slot | retry _ slot | plan slot
  | starting slot | turn slot | leaving slot | forgetting slot | closing slot .request
  | killing slot .request | returned (some slot) => [slot]
  | install ctl | preparing ctl | spawned ctl | stored ctl | aborting ctl => [ctl.1]
  | closing slot (.reaper rest) | killing slot (.reaper rest) | visiting slot rest
  | reaped slot rest | reapForget slot rest => slot :: rest
  | sweeping rest => rest
  | absent | lookUp _ _ | answered | close _ | returned none => []

def ctl : Pc τ → Option (CtlId τ)
  | install ctl | preparing ctl | spawned ctl | stored ctl | aborting ctl => some ctl
  | _ => none

def sawClosed : Pc τ → Option (SlotId τ)
  | closedSeen _ slot | retry _ slot | killing slot _ | returned (some slot) | reaped slot _
  | reapForget slot _ => some slot
  | _ => none

/-- The start of a process that is not there yet. -/
def unspawned : Pc τ → Option (CtlId τ)
  | install ctl | preparing ctl => some ctl
  | _ => none

/-- The start of a process that is in its slot, or overtaken there. -/
def started : Pc τ → Option (CtlId τ)
  | preparing ctl | spawned ctl | stored ctl | aborting ctl => some ctl
  | _ => none

/-- The start of a process whose child has been put in its place, if it runs. -/
def placed : Pc τ → Option (CtlId τ)
  | stored ctl | aborting ctl => some ctl
  | _ => none

theorem holds_of_ctl {pc : Pc τ} {ctl : CtlId τ} (at_ : pc.ctl = some ctl) :
    pc.holds = some ctl.1 := by
  cases pc <;> cases at_ <;> rfl

theorem ctl_of_unspawned {pc : Pc τ} {ctl : CtlId τ} (at_ : pc.unspawned = some ctl) :
    pc.ctl = some ctl := by
  cases pc <;> cases at_ <;> rfl

theorem ctl_of_placed {pc : Pc τ} {ctl : CtlId τ} (at_ : pc.placed = some ctl) :
    pc.ctl = some ctl := by
  cases pc <;> cases at_ <;> rfl

theorem ctl_of_started {pc : Pc τ} {ctl : CtlId τ} (at_ : pc.started = some ctl) :
    pc.ctl = some ctl := by
  cases pc <;> cases at_ <;> rfl

end Pc

variable [DecidableEq τ]

structure At (state : State τ) (thread : Nat) (pc : Pc τ) : Prop where
  lock : ∀ slot, pc.holds = some slot → (state.slots slot).holder = some thread
  made : ∀ slot ∈ pc.refs, slot.2 < state.nextSlot
  numbered : ∀ ctl, pc.ctl = some ctl → ctl.2 < state.seq
  shut : ∀ slot, pc.sawClosed = some slot → (state.slots slot).closed = true
  done : ∀ slot, pc = .returned (some slot) → (state.slots slot).ctl = none
  unspawned : ∀ ctl, pc.unspawned = some ctl →
    (state.ctls ctl).running = false ∧ (state.ctls ctl).stored = false
  unstored : ∀ ctl, pc = .spawned ctl → (state.ctls ctl).stored = false
  placed : ∀ ctl, pc.placed = some ctl → (state.ctls ctl).running = true →
    (state.ctls ctl).stored = true
  current : ∀ ctl, pc.started = some ctl →
    (state.slots ctl.1).ctl = some ctl ∨ (state.ctls ctl).dead = true

def Effect.Fits (state : State τ) (thread : Nat) : Effect τ → Prop
  | lock slot => (state.slots slot).holder = none
  | unlock slot | endSession slot | begin slot => (state.slots slot).holder = some thread
  | kill ctl | onCtl ctl _ => (state.slots ctl.1).holder = some thread
  | install ctl =>
    (state.slots ctl.1).holder = some thread ∧ (state.slots ctl.1).closed = false
  | skip | killCtl _ | number | shut _ | enter _ | erase _ => True

variable {state : State τ} {maxSessions thread : Nat} {before after : Pc τ} {effect : Effect τ}

theorem Goes.fits (goes : Goes maxSessions state before effect after) (own : At state thread before) :
    effect.Fits state thread := by
  cases goes
  case locked free => exact free
  case visits free => exact free
  case unlocked => exact own.lock _ rfl
  case fresh => exact own.lock _ rfl
  case overtaken => exact own.lock _ rfl
  case installed usable => exact ⟨own.lock _ rfl, usable⟩
  case spawned => exact own.lock _ rfl
  case stored => exact own.lock _ rfl
  case lost => exact own.lock _ rfl
  case begun => exact own.lock _ rfl
  case killed => exact own.lock _ rfl
  case failed => exact own.lock _ rfl
  case left => exact own.lock _ rfl
  case leftEmpty => exact own.lock _ rfl
  case spares => exact own.lock _ rfl
  case released => exact own.lock _ rfl
  all_goals trivial

/-- What a step of another thread may change of what a thread relies on. -/
structure Spares (state next : State τ) (thread : Nat) (pc : Pc τ) : Prop where
  lock : ∀ slot, pc.holds = some slot → (state.slots slot).holder = some thread →
    (next.slots slot).holder = some thread
  made : state.nextSlot ≤ next.nextSlot
  numbered : state.seq ≤ next.seq
  shut : ∀ slot, (state.slots slot).closed = true → (next.slots slot).closed = true
  done : ∀ slot, (state.slots slot).closed = true → (state.slots slot).ctl = none →
    (next.slots slot).ctl = none
  ctls : ∀ ctl, pc.ctl = some ctl →
    next.ctls ctl = state.ctls ctl ∨ next.ctls ctl = (state.ctls ctl).kill
  current : ∀ ctl, pc.ctl = some ctl → (state.slots ctl.1).ctl = some ctl →
    (next.slots ctl.1).ctl = some ctl ∨ (next.ctls ctl).dead = true

omit [DecidableEq τ] in
theorem At.spared {next : State τ} {pc : Pc τ} (at_ : At state thread pc)
    (spares : Spares state next thread pc) : At next thread pc where
  lock slot holds := spares.lock slot holds (at_.lock slot holds)
  made slot ref := Nat.lt_of_lt_of_le (at_.made slot ref) spares.made
  numbered ctl here := Nat.lt_of_lt_of_le (at_.numbered ctl here) spares.numbered
  shut slot saw := spares.shut slot (at_.shut slot saw)
  done slot returned :=
    spares.done slot (at_.shut slot (by rw [returned]; rfl)) (at_.done slot returned)
  unspawned ctl here := by
    have before := at_.unspawned ctl here
    rcases spares.ctls ctl (Pc.ctl_of_unspawned here) with same | killed
    · rw [same]
      exact before
    · rw [killed]
      simp [Ctl.kill, before.1]
  unstored ctl here := by
    have before := at_.unstored ctl here
    rcases spares.ctls ctl (by rw [here]; rfl) with same | killed
    · rw [same]
      exact before
    · rw [killed]
      rfl
  placed ctl here := by
    have before := at_.placed ctl here
    rcases spares.ctls ctl (Pc.ctl_of_placed here) with same | killed
    · rw [same]
      exact before
    · rw [killed]
      intro running
      simp only [Ctl.kill, Bool.and_eq_true, Bool.not_eq_true'] at running
      rw [before running.1] at running
      cases running.2
  current ctl here := by
    have dead : (state.ctls ctl).dead = true → (next.ctls ctl).dead = true := by
      intro dead
      rcases spares.ctls ctl (Pc.ctl_of_started here) with same | killed
      · rw [same]
        exact dead
      · rw [killed]
        rfl
    rcases at_.current ctl here with current | overtaken
    · exact spares.current ctl (Pc.ctl_of_started here) current
    · exact .inr (dead overtaken)

theorem Effect.Fits.spares {other : Nat} {pc : Pc τ} (fits : effect.Fits state thread)
    (differs : other ≠ thread) (at_ : At state other pc) :
    Spares state (effect.apply state thread) other pc := by
  have notOurs : ∀ slot, pc.holds = some slot → (state.slots slot).holder ≠ some thread := by
    intro slot holds ours
    rw [at_.lock slot holds] at ours
    exact differs (Option.some.inj ours)
  have notOurCtl : ∀ ctl, pc.ctl = some ctl → (state.slots ctl.1).holder ≠ some thread :=
    fun ctl here => notOurs ctl.1 (Pc.holds_of_ctl here)
  cases effect with
  | skip => exact ⟨by simp [Effect.apply], le_rfl, le_rfl, by simp [Effect.apply],
      by simp [Effect.apply], fun _ _ => .inl rfl, fun _ _ there => .inl there⟩
  | lock slot =>
    refine ⟨?_, le_rfl, le_rfl, ?_, ?_, fun _ _ => .inl rfl, ?_⟩
    all_goals
      simp only [Effect.apply, State.lock, State.onSlot_slots, Effect.Fits] at *
      grind
  | unlock slot =>
    refine ⟨?_, le_rfl, le_rfl, ?_, ?_, fun _ _ => .inl rfl, ?_⟩
    all_goals
      simp only [Effect.apply, State.unlock, State.onSlot_slots, Effect.Fits] at *
      grind
  | kill ctl =>
    refine ⟨fun _ _ => id, le_rfl, le_rfl, fun _ => id, fun _ _ => id, ?_, fun _ _ => .inl⟩
    intro other here
    simp only [Effect.apply, State.kill, State.onCtl_ctls, Effect.Fits] at *
    grind
  | killCtl slot =>
    refine ⟨?_, by simp [Effect.apply], by simp [Effect.apply], ?_, ?_, ?_, ?_⟩
    all_goals
      simp only [Effect.apply, State.killCtl_slots, State.killCtl_ctls] at *
      grind [Ctl.kill]
  | endSession slot =>
    refine ⟨?_, by simp [Effect.apply], by simp [Effect.apply], ?_, ?_, ?_, ?_⟩
    all_goals
      simp only [Effect.apply, State.endSession_slots, State.endSession_ctls] at *
      grind [Ctl.kill]
  | number =>
    exact ⟨fun _ _ => id, le_rfl, Nat.le_succ _, fun _ => id, fun _ _ => id,
      fun _ _ => .inl rfl, fun _ _ => .inl⟩
  | install ctl =>
    refine ⟨?_, by simp [Effect.apply], by simp [Effect.apply], ?_, ?_, ?_, ?_⟩
    all_goals
      simp only [Effect.apply, State.install_slots, State.install_ctls, Effect.Fits] at *
      grind [Ctl.kill]
  | onCtl ctl change =>
    refine ⟨fun _ _ => id, le_rfl, le_rfl, fun _ => id, fun _ _ => id, ?_, fun _ _ => .inl⟩
    intro other here
    simp only [Effect.apply, State.onCtl_ctls, Effect.Fits] at *
    grind
  | begin slot =>
    refine ⟨?_, le_rfl, le_rfl, ?_, ?_, fun _ _ => .inl rfl, ?_⟩
    all_goals
      simp only [Effect.apply, State.onSlot_slots, Effect.Fits] at *
      grind
  | shut slot =>
    refine ⟨?_, le_rfl, le_rfl, ?_, ?_, fun _ _ => .inl rfl, ?_⟩
    all_goals
      simp only [Effect.apply, State.onSlot_slots, Effect.Fits] at *
      grind
  | enter task =>
    exact ⟨fun _ _ => id, Nat.le_succ _, le_rfl, fun _ => id, fun _ _ => id,
      fun _ _ => .inl rfl, fun _ _ => .inl⟩
  | erase slot =>
    exact ⟨fun _ _ => id, le_rfl, le_rfl, fun _ => id, fun _ _ => id, fun _ _ => .inl rfl,
      fun _ _ => .inl⟩

structure Unmade (state : State τ) : Prop where
  slots : ∀ slot, state.nextSlot ≤ slot.2 → state.slots slot = .new
  ctls : ∀ ctl, state.seq ≤ ctl.2 → state.ctls ctl = .new
  registered : ∀ slot, state.registered slot → slot.2 < state.nextSlot

/-! Where a thread gets what it has at its new place. -/

section

variable (goes : Goes maxSessions state before effect after)

include goes

theorem Goes.holds_from {slot : SlotId τ} (holds : after.holds = some slot) :
    effect = .lock slot ∨ before.holds = some slot ∧ effect ≠ .unlock slot := by
  cases goes
  case shut closer => cases closer <;> exact .inr ⟨holds, nofun⟩
  all_goals simp_all [Pc.holds]

theorem Goes.refs_from (registered : ∀ slot, state.registered slot → slot.2 < state.nextSlot)
    {slot : SlotId τ} (ref : slot ∈ after.refs) :
    slot ∈ before.refs ∨ slot.2 < (effect.apply state thread).nextSlot := by
  cases goes
  case found there =>
    rw [List.mem_singleton.mp ref]
    exact .inr (registered _ there)
  case removed there =>
    rw [List.mem_singleton.mp ref]
    exact .inr (registered _ there)
  case made =>
    rw [List.mem_singleton.mp ref]
    exact .inr (Nat.lt_succ_self _)
  case shut closer => cases closer <;> exact .inl ref
  all_goals simp_all [Pc.refs]

theorem Goes.ctl_from {ctl : CtlId τ} (here : after.ctl = some ctl) :
    before.ctl = some ctl ∨ effect = .number ∧ ctl.2 = state.seq := by
  cases goes
  case numbered =>
    cases here
    exact .inr ⟨rfl, rfl⟩
  all_goals simp_all [Pc.ctl]

theorem Goes.sawClosed_from {slot : SlotId τ} (saw : after.sawClosed = some slot) :
    (before.sawClosed = some slot ∨ (state.slots slot).closed = true) ∨ effect = .shut slot := by
  cases goes <;> simp_all [Pc.sawClosed]

theorem Goes.done_from {slot : SlotId τ} (done : after = .returned (some slot)) :
    effect = .killCtl slot := by
  cases goes <;> simp_all

theorem Goes.unspawned_from {ctl : CtlId τ} (here : after.unspawned = some ctl) :
    effect = .number ∧ ctl.2 = state.seq ∨
      before.unspawned = some ctl ∧ effect = .install ctl := by
  cases goes
  case numbered =>
    cases here
    exact .inl ⟨rfl, rfl⟩
  all_goals simp_all [Pc.unspawned]

theorem Goes.unstored_from {ctl : CtlId τ} (here : after = .spawned ctl) :
    before.unspawned = some ctl ∧ effect = .onCtl ctl fun c => { c with running := true } := by
  cases goes <;> simp_all [Pc.unspawned]

theorem Goes.placed_from {ctl : CtlId τ} (here : after.placed = some ctl) :
    effect = .onCtl ctl (fun c => { c with stored := true }) ∨
      effect = .onCtl ctl (fun c => { c with running := false }) ∨
        (before.placed = some ctl ∨ before.unspawned = some ctl) ∧ effect = .skip := by
  cases goes <;> simp_all [Pc.placed, Pc.unspawned]

theorem Goes.started_from {ctl : CtlId τ} (here : after.started = some ctl) :
    effect = .install ctl ∨
      before.started = some ctl ∧
        (effect = .skip ∨ ∃ change, effect = .onCtl ctl change ∧
          ∀ c, (change c).dead = c.dead) := by
  cases goes <;> simp_all [Pc.started]

end

theorem Effect.nextSlot_le : state.nextSlot ≤ (effect.apply state thread).nextSlot := by
  cases effect <;> simp [Effect.apply, State.lock, State.unlock, State.kill]

theorem Effect.seq_le : state.seq ≤ (effect.apply state thread).seq := by
  cases effect <;> simp [Effect.apply, State.lock, State.unlock, State.kill]

theorem Effect.closed {slot : SlotId τ} (closed : (state.slots slot).closed = true) :
    ((effect.apply state thread).slots slot).closed = true := by
  cases effect <;>
  simp only [Effect.apply, State.lock, State.unlock, State.kill, State.onSlot_slots,
    State.killCtl_slots, State.endSession_slots, State.install_slots, State.onCtl_slots] <;>
  first
  | exact closed
  | split_ifs with same
    · first
      | rfl
      | exact same ▸ closed
    · exact closed

theorem Effect.holder {slot : SlotId τ} (held : (state.slots slot).holder = some thread)
    (kept : effect ≠ .unlock slot) :
    ((effect.apply state thread).slots slot).holder = some thread := by
  cases effect
  case unlock other =>
    rw [Effect.apply, State.unlock, State.onSlot_slots, if_neg fun same : slot = other => kept (by rw [same])]
    exact held
  all_goals
    simp only [Effect.apply, State.lock, State.kill, State.onSlot_slots, State.killCtl_slots,
      State.endSession_slots, State.install_slots, State.onCtl_slots]
  all_goals first
    | exact held
    | split_ifs with same
      · first
        | rfl
        | exact same ▸ held
      · exact held

theorem Goes.at_ (goes : Goes maxSessions state before effect after)
    (own : At state thread before) (unmade : Unmade state) :
    At (effect.apply state thread) thread after where
  lock slot holds := by
    rcases goes.holds_from holds with rfl | ⟨held, kept⟩
    · rw [Effect.apply, State.lock, State.onSlot_slots, if_pos rfl]
    · exact Effect.holder (own.lock slot held) kept
  made slot ref := by
    rcases goes.refs_from (fun slot => unmade.registered slot) ref with known | made
    · exact Nat.lt_of_lt_of_le (own.made slot known) Effect.nextSlot_le
    · exact made
  numbered ctl here := by
    rcases goes.ctl_from here with known | ⟨rfl, number⟩
    · exact Nat.lt_of_lt_of_le (own.numbered ctl known) Effect.seq_le
    · exact number ▸ Nat.lt_succ_self _
  shut slot saw := by
    rcases goes.sawClosed_from saw with (known | closed) | rfl
    · exact Effect.closed (own.shut slot known)
    · exact Effect.closed closed
    · rw [Effect.apply, State.onSlot_slots, if_pos rfl]
  done slot done := by
    rw [goes.done_from done, Effect.apply, State.killCtl_slots, if_pos rfl]
  unspawned ctl here := by
    rcases goes.unspawned_from here with ⟨rfl, number⟩ | ⟨known, rfl⟩
    · have new := unmade.ctls ctl (Nat.le_of_eq number.symm)
      rw [Effect.apply, new]
      exact ⟨rfl, rfl⟩
    · rw [Effect.apply, State.install_ctls]
      have none_yet := own.unspawned ctl known
      split_ifs
      · simp [Ctl.kill, none_yet.1]
      · exact none_yet
  unstored ctl here := by
    rcases goes.unstored_from here with ⟨known, rfl⟩
    rw [Effect.apply, State.onCtl_ctls, if_pos rfl]
    exact (own.unspawned ctl known).2
  placed ctl here := by
    rcases goes.placed_from here with rfl | rfl | ⟨known | known, rfl⟩
    · rw [Effect.apply, State.onCtl_ctls, if_pos rfl]
      exact fun _ => rfl
    · rw [Effect.apply, State.onCtl_ctls, if_pos rfl]
      exact nofun
    · exact own.placed ctl known
    · intro running
      rw [Effect.apply, (own.unspawned ctl known).1] at running
      cases running
  current ctl here := by
    rcases goes.started_from here with rfl | ⟨known, rfl | ⟨change, rfl, keeps⟩⟩
    · rw [Effect.apply, State.install_slots, if_pos rfl]
      exact .inl rfl
    · exact own.current ctl known
    · rw [Effect.apply, State.onCtl_slots, State.onCtl_ctls, if_pos rfl, keeps]
      exact own.current ctl known

/-! What is not there is left alone. -/

def Effect.slot : Effect τ → Option (SlotId τ)
  | lock slot | unlock slot | killCtl slot | endSession slot | begin slot | shut slot => some slot
  | install ctl => some ctl.1
  | skip | kill _ | number | onCtl _ _ | enter _ | erase _ => none

def Effect.ctl : Effect τ → Option (CtlId τ)
  | kill ctl | install ctl | onCtl ctl _ => some ctl
  | _ => none

theorem Goes.effect_slot (goes : Goes maxSessions state before effect after)
    {slot : SlotId τ} (changes : effect.slot = some slot) : slot ∈ before.refs := by
  cases goes
  case shut closer => cases closer <;> simp_all [Pc.refs, Effect.slot]
  all_goals simp_all [Pc.refs, Effect.slot]

theorem Goes.effect_ctl (goes : Goes maxSessions state before effect after)
    {ctl : CtlId τ} (about : effect.ctl = some ctl) : before.ctl = some ctl := by
  cases goes <;> simp_all [Pc.ctl, Effect.ctl]

theorem Effect.slots_other {slot : SlotId τ} (other : effect.slot ≠ some slot) :
    (effect.apply state thread).slots slot = state.slots slot := by
  cases effect <;>
  simp only [Effect.apply, State.lock, State.unlock, State.kill, State.onSlot_slots,
    State.killCtl_slots, State.endSession_slots, State.install_slots, State.onCtl_slots] <;>
  exact if_neg fun same => other (by rw [same]; rfl)

/-- A start is left alone by what is about another, and is not the one in a slot whose
process is ended. -/
theorem Effect.ctls_other {ctl : CtlId τ} (other : effect.ctl ≠ some ctl ∨ effect = .install ctl)
    (apart : ∀ slot, effect.slot = some slot → (state.slots slot).ctl ≠ some ctl) :
    (effect.apply state thread).ctls ctl = state.ctls ctl := by
  cases effect
  case kill | onCtl =>
    rcases other with other | ⟨⟨⟩⟩
    simp only [Effect.apply, State.kill, State.onCtl_ctls]
    exact if_neg fun same => other (by rw [same]; rfl)
  case killCtl slot =>
    rw [Effect.apply, State.killCtl_ctls, if_neg (apart slot rfl)]
  case endSession slot =>
    rw [Effect.apply, State.endSession_ctls, if_neg (apart slot rfl)]
  case install installed =>
    rw [Effect.apply, State.install_ctls, if_neg (apart installed.1 rfl)]
  all_goals rfl

end EclipseOS.Inferenced.Slots
