import EclipseOS.Inferenced.Places

/-! # Processes

Where a running process is: in its slot, or still with the thread that spawned it. -/

namespace EclipseOS.Inferenced.Slots

open Foundation

variable {τ : Type}

/-- The start of a process its thread has spawned and not yet let go. -/
def Pc.rising : Pc τ → Option (CtlId τ)
  | spawned ctl | stored ctl | aborting ctl => some ctl
  | _ => none

theorem Pc.ctl_of_rising {pc : Pc τ} {ctl : CtlId τ} (here : pc.rising = some ctl) :
    pc.ctl = some ctl := by
  cases pc <;> cases here <;> rfl

theorem Pc.mem_refs_of_ctl {pc : Pc τ} {ctl : CtlId τ} (here : pc.ctl = some ctl) :
    ctl.1 ∈ pc.refs := by
  cases pc <;> cases here <;> exact List.mem_singleton_self _

theorem Pc.mem_refs_of_inHand {pc : Pc τ} {slot : SlotId τ} (here : pc.inHand = some slot) :
    slot ∈ pc.refs := by
  cases pc <;> cases here <;> exact List.mem_singleton_self _

variable [DecidableEq τ]

/-- The start was killed when it was under way, and its thread has yet to find out. -/
def Overtaken (state : State τ) (ctl : CtlId τ) : Prop :=
  (state.ctls ctl).dead = true ∧ ∃ thread, (state.threads thread).rising = some ctl

structure Processes (state : State τ) : Prop where
  places : ∀ thread, At state thread (state.threads thread)
  unmade : Unmade state
  inSlot : ∀ slot ctl, (state.slots slot).ctl = some ctl →
    ctl.1 = slot ∧ slot.2 < state.nextSlot ∧ ctl.2 < state.seq
  running : ∀ ctl, (state.ctls ctl).running = true →
    (state.slots ctl.1).ctl = some ctl ∨ Overtaken state ctl
  unstored : ∀ ctl, (state.ctls ctl).running = true → (state.ctls ctl).stored = true ∨
    ∃ thread, state.threads thread = .spawned ctl
  closed : ∀ slot, (state.slots slot).closed = true → (state.slots slot).ctl = none ∨
    ∃ thread closer, state.threads thread = .killing slot closer

variable {state : State τ} {maxSessions thread : Nat} {before after : Pc τ} {effect : Effect τ}

omit [DecidableEq τ] in
theorem set_threads (pc : Pc τ) (other : Nat) :
    (state.set thread pc).threads other = if other = thread then pc else state.threads other :=
  Function.update_apply ..

theorem Effect.threads : (effect.apply state thread).threads = state.threads := by
  cases effect <;> simp [Effect.apply, State.lock, State.unlock, State.kill, State.endSession,
    State.install, State.onSlot, State.onCtl]

theorem Effect.nextThread : (effect.apply state thread).nextThread = state.nextThread := by
  cases effect <;> simp [Effect.apply, State.lock, State.unlock, State.kill, State.endSession,
    State.install, State.onSlot, State.onCtl]

theorem Effect.table (enters : ∀ task, effect ≠ .enter task)
    (erases : ∀ slot, effect ≠ .erase slot) :
    (effect.apply state thread).table = state.table := by
  cases effect
  case enter task => exact absurd rfl (enters task)
  case erase slot => exact absurd rfl (erases slot)
  all_goals simp [Effect.apply, State.lock, State.unlock, State.kill, State.endSession,
    State.install, State.onSlot, State.onCtl]

theorem threads_after (other : Nat) :
    ((effect.apply state thread).set thread after).threads other =
      if other = thread then after else state.threads other := by
  rw [set_threads, Effect.threads]

omit [DecidableEq τ] in
theorem At.of_same {next : State τ} {pc : Pc τ} (at_ : At state thread pc)
    (slots : next.slots = state.slots) (ctls : next.ctls = state.ctls)
    (nextSlot : next.nextSlot = state.nextSlot) (seq : next.seq = state.seq) :
    At next thread pc := by
  rcases at_ with ⟨lock, made, numbered, shut, done, unspawned, unstored, placed, current⟩
  rw [← nextSlot] at made
  rw [← seq] at numbered
  rw [← ctls] at unspawned unstored placed current
  rw [← slots] at lock shut done current
  exact ⟨lock, made, numbered, shut, done, unspawned, unstored, placed, current⟩

/-! Where a step leaves a start, and its thread. -/

section

variable (goes : Goes maxSessions state (state.threads thread) effect after)

include goes

theorem Goes.rising_kept {ctl : CtlId τ} (rising : (state.threads thread).rising = some ctl) :
    after.rising = some ctl ∨ effect = .kill ctl ∨ (state.ctls ctl).dead = false := by
  generalize state.threads thread = before at goes rising
  cases goes <;> simp_all [Pc.rising]

theorem Goes.spawned_kept {ctl : CtlId τ} (spawned : state.threads thread = .spawned ctl) :
    effect = .onCtl ctl (fun c => { c with stored := true }) ∨
      effect = .onCtl ctl (fun c => { c with running := false }) := by
  rw [spawned] at goes
  cases goes <;> simp

theorem Goes.killing_kept {slot : SlotId τ} {closer : Closer τ}
    (killing : state.threads thread = .killing slot closer) : effect = .killCtl slot := by
  rw [killing] at goes
  cases goes <;> rfl

theorem Goes.onCtl_from {ctl : CtlId τ} {change : Ctl → Ctl} (about : effect = .onCtl ctl change) :
    (change = (fun c => { c with running := true }) ∧ after = .spawned ctl ∧
        (state.threads thread).started = some ctl) ∨
      (change = (fun c => { c with stored := true }) ∧ after = .stored ctl ∧
        (state.threads thread).started = some ctl) ∨
          change = fun c => { c with running := false } := by
  generalize state.threads thread = before at goes
  cases goes <;> simp_all [Pc.started]

end

theorem Effect.ctls_cases (ctl : CtlId τ) :
    (effect.apply state thread).ctls ctl = state.ctls ctl ∨
      (effect.apply state thread).ctls ctl = (state.ctls ctl).kill ∨
        ∃ change, effect = .onCtl ctl change := by
  cases effect
  case kill other =>
    rw [Effect.apply, State.kill, State.onCtl_ctls]
    split_ifs with same
    · exact .inr (.inl (same ▸ rfl))
    · exact .inl rfl
  case onCtl other change =>
    by_cases same : ctl = other
    · exact .inr (.inr ⟨change, by rw [same]⟩)
    · rw [Effect.apply, State.onCtl_ctls, if_neg same]
      exact .inl rfl
  case killCtl slot =>
    rw [Effect.apply, State.killCtl_ctls]
    split_ifs
    · exact .inr (.inl rfl)
    · exact .inl rfl
  case endSession slot =>
    rw [Effect.apply, State.endSession_ctls]
    split_ifs
    · exact .inr (.inl rfl)
    · exact .inl rfl
  case install installed =>
    rw [Effect.apply, State.install_ctls]
    split_ifs
    · exact .inr (.inl rfl)
    · exact .inl rfl
  all_goals exact .inl rfl

theorem Effect.inSlot_kept {slot : SlotId τ} {ctl : CtlId τ}
    (there : (state.slots slot).ctl = some ctl) :
    ((effect.apply state thread).slots slot).ctl = some ctl ∨
      (effect.apply state thread).ctls ctl = (state.ctls ctl).kill := by
  by_cases changes : effect.slot = some slot
  · cases effect
    case killCtl other =>
      cases changes
      exact .inr (by rw [Effect.apply, State.killCtl_ctls, if_pos there])
    case endSession other =>
      cases changes
      exact .inr (by rw [Effect.apply, State.endSession_ctls, if_pos there])
    case install other =>
      cases changes
      exact .inr (by rw [Effect.apply, State.install_ctls, if_pos there])
    all_goals cases changes
    all_goals
      refine .inl ?_
      simpa [Effect.apply, State.lock, State.unlock, State.onSlot_slots] using there
  · rw [Effect.slots_other changes]
    exact .inl there

theorem Effect.Fits.empty_kept (fits : effect.Fits state thread) {slot : SlotId τ}
    (closed : (state.slots slot).closed = true) (empty : (state.slots slot).ctl = none) :
    ((effect.apply state thread).slots slot).ctl = none := by
  by_cases changes : effect.slot = some slot
  · cases effect
    case install other =>
      cases changes
      rw [fits.2] at closed
      cases closed
    case killCtl other =>
      cases changes
      rw [Effect.apply, State.killCtl_slots, if_pos rfl]
    case endSession other =>
      cases changes
      rw [Effect.apply, State.endSession_slots, if_pos rfl]
    all_goals cases changes
    all_goals simpa [Effect.apply, State.lock, State.unlock, State.onSlot_slots] using empty
  · rw [Effect.slots_other changes]
    exact empty

theorem Processes.made (kept : Processes state) {ctl : CtlId τ}
    (running : (state.ctls ctl).running = true) : ctl.1.2 < state.nextSlot := by
  rcases kept.running ctl running with there | ⟨-, other, rising⟩
  · exact (kept.inSlot ctl.1 ctl there).2.1
  · exact (kept.places other).made ctl.1 (Pc.mem_refs_of_ctl (Pc.ctl_of_rising rising))

section

variable (kept : Processes state)
  (goes : Goes maxSessions state (state.threads thread) effect after)

include kept goes

theorem Processes.places_go (other : Nat) :
    At ((effect.apply state thread).set thread after) other
      (((effect.apply state thread).set thread after).threads other) := by
  rw [threads_after]
  split_ifs with same
  · subst same
    exact (goes.at_ (kept.places other) kept.unmade).of_same rfl rfl rfl rfl
  · have fits := goes.fits (kept.places thread)
    exact ((kept.places other).spared (fits.spares same (kept.places other))).of_same
      rfl rfl rfl rfl

theorem Processes.unmade_go : Unmade ((effect.apply state thread).set thread after) where
  slots slot unmade := by
    have before : state.nextSlot ≤ slot.2 := Nat.le_trans Effect.nextSlot_le unmade
    refine (Effect.slots_other fun changes => ?_).trans (kept.unmade.slots slot before)
    exact absurd ((kept.places thread).made slot (goes.effect_slot changes))
      (Nat.not_lt_of_le before)
  ctls ctl unnumbered := by
    have before : state.seq ≤ ctl.2 := Nat.le_trans Effect.seq_le unnumbered
    refine (Effect.ctls_other (.inl fun about => ?_) fun slot _ there => ?_).trans
      (kept.unmade.ctls ctl before)
    · exact absurd ((kept.places thread).numbered ctl (goes.effect_ctl about))
        (Nat.not_lt_of_le before)
    · exact absurd (kept.inSlot slot ctl there).2.2 (Nat.not_lt_of_le before)
  registered slot registered := by
    have table : (effect.apply state thread).table.lookup slot.1 = some slot.2 := registered
    cases effect
    case enter task =>
      rw [Effect.apply] at table
      rcases Table.lookup_insert_eq_some.mp table with ⟨-, new⟩ | ⟨-, old⟩
      · exact new ▸ Nat.lt_succ_self _
      · exact Nat.lt_succ_of_lt (kept.unmade.registered slot old)
    case erase other =>
      exact kept.unmade.registered slot (Table.lookup_erase_eq_some.mp table).2
    all_goals
      rw [Effect.table] at table
      · exact Nat.lt_of_lt_of_le (kept.unmade.registered slot table) Effect.nextSlot_le
      all_goals rintro _ ⟨⟩

theorem Processes.inSlot_go (slot : SlotId τ) (ctl : CtlId τ)
    (there : ((effect.apply state thread).slots slot).ctl = some ctl) :
    ctl.1 = slot ∧ slot.2 < (effect.apply state thread).nextSlot ∧
      ctl.2 < (effect.apply state thread).seq := by
  have old : (state.slots slot).ctl = some ctl → ctl.1 = slot ∧
      slot.2 < (effect.apply state thread).nextSlot ∧
        ctl.2 < (effect.apply state thread).seq := by
    intro there
    rcases kept.inSlot slot ctl there with ⟨same, made, numbered⟩
    exact ⟨same, Nat.lt_of_lt_of_le made Effect.nextSlot_le,
      Nat.lt_of_lt_of_le numbered Effect.seq_le⟩
  by_cases changes : effect.slot = some slot
  · have own := kept.places thread
    cases effect
    case install installed =>
      cases changes
      rw [Effect.apply, State.install_slots, if_pos rfl] at there
      cases there
      refine ⟨rfl, ?_, ?_⟩
      · exact Nat.lt_of_lt_of_le (own.made _ (goes.effect_slot rfl)) Effect.nextSlot_le
      · exact Nat.lt_of_lt_of_le (own.numbered _ (goes.effect_ctl rfl)) Effect.seq_le
    case killCtl =>
      cases changes
      rw [Effect.apply, State.killCtl_slots, if_pos rfl] at there
      cases there
    case endSession =>
      cases changes
      rw [Effect.apply, State.endSession_slots, if_pos rfl] at there
      cases there
    all_goals
      refine old ?_
    all_goals cases changes
    all_goals
      simpa [Effect.apply, State.lock, State.unlock, State.onSlot_slots] using there
  · rw [Effect.slots_other changes] at there
    exact old there

theorem Processes.outlives {ctl : CtlId τ}
    (killed : (effect.apply state thread).ctls ctl = (state.ctls ctl).kill)
    (running : ((effect.apply state thread).ctls ctl).running = true) :
    ∃ other, ((effect.apply state thread).set thread after).threads other = .spawned ctl := by
  have lives := running
  rw [killed, Ctl.kill, Bool.and_eq_true, Bool.not_eq_true'] at lives
  rcases kept.unstored ctl lives.1 with stored | ⟨other, spawned⟩
  · rw [stored] at lives
    cases lives.2
  · refine ⟨other, ?_⟩
    rw [threads_after, if_neg]
    · exact spawned
    · rintro rfl
      rcases goes.spawned_kept spawned with rfl | rfl
      · rw [Effect.apply, State.onCtl_ctls, if_pos rfl] at killed
        cases congrArg Ctl.stored killed
      · rw [Effect.apply, State.onCtl_ctls, if_pos rfl] at running
        cases running

theorem Processes.running_go (ctl : CtlId τ)
    (running : ((effect.apply state thread).ctls ctl).running = true) :
    ((effect.apply state thread).slots ctl.1).ctl = some ctl ∨
      Overtaken ((effect.apply state thread).set thread after) ctl := by
  have whenKilled : (effect.apply state thread).ctls ctl = (state.ctls ctl).kill →
      Overtaken ((effect.apply state thread).set thread after) ctl := by
    intro killed
    rcases kept.outlives goes killed running with ⟨other, spawned⟩
    refine ⟨?_, other, by rw [spawned]; rfl⟩
    exact (congrArg Ctl.dead killed).trans rfl
  rcases Effect.ctls_cases ctl with same | killed | ⟨change, about⟩
  · rw [same] at running
    rcases kept.running ctl running with there | ⟨dead, other, rising⟩
    · rcases Effect.inSlot_kept there with stays | killed
      · exact .inl stays
      · exact .inr (whenKilled killed)
    · have stillDead : ((effect.apply state thread).ctls ctl).dead = true := by
        rw [same]
        exact dead
      refine .inr ⟨stillDead, ?_⟩
      by_cases its : other = thread
      · subst its
        rcases goes.rising_kept rising with stays | rfl | alive
        · exact ⟨other, by rw [threads_after, if_pos rfl]; exact stays⟩
        · have killed : (Effect.apply state other (.kill ctl)).ctls ctl =
              (state.ctls ctl).kill := by
            rw [Effect.apply, State.kill, State.onCtl_ctls, if_pos rfl]
          exact (whenKilled killed).2
        · rw [alive] at dead
          cases dead
      · exact ⟨other, by rw [threads_after, if_neg its]; exact rising⟩
  · exact .inr (whenKilled killed)
  · rcases goes.onCtl_from about with ⟨rfl, rfl, started⟩ | ⟨rfl, rfl, started⟩ | rfl
    all_goals subst about
    · rcases (kept.places thread).current ctl started with there | dead
      · exact .inl there
      · refine .inr ⟨?_, thread, by rw [threads_after, if_pos rfl]; rfl⟩
        simpa [State.set, Effect.apply, State.onCtl_ctls] using dead
    · rcases (kept.places thread).current ctl started with there | dead
      · exact .inl there
      · refine .inr ⟨?_, thread, by rw [threads_after, if_pos rfl]; rfl⟩
        simpa [State.set, Effect.apply, State.onCtl_ctls] using dead
    · rw [Effect.apply, State.onCtl_ctls, if_pos rfl] at running
      cases running

theorem Processes.unstored_go (ctl : CtlId τ)
    (running : ((effect.apply state thread).ctls ctl).running = true) :
    ((effect.apply state thread).ctls ctl).stored = true ∨
      ∃ other, ((effect.apply state thread).set thread after).threads other = .spawned ctl := by
  rcases Effect.ctls_cases ctl with same | killed | ⟨change, about⟩
  · rw [same] at running ⊢
    rcases kept.unstored ctl running with stored | ⟨other, spawned⟩
    · exact .inl stored
    · by_cases its : other = thread
      · subst its
        rcases goes.spawned_kept spawned with rfl | rfl
        · rw [← same, Effect.apply, State.onCtl_ctls, if_pos rfl]
          exact .inl rfl
        · rw [← same, Effect.apply, State.onCtl_ctls, if_pos rfl] at running
          cases running
      · exact .inr ⟨other, by rw [threads_after, if_neg its]; exact spawned⟩
  · exact .inr (kept.outlives goes killed running)
  · rcases goes.onCtl_from about with ⟨rfl, rfl, -⟩ | ⟨rfl, rfl, -⟩ | rfl
    all_goals subst about
    · exact .inr ⟨thread, by rw [threads_after, if_pos rfl]⟩
    · rw [Effect.apply, State.onCtl_ctls, if_pos rfl]
      exact .inl rfl
    · rw [Effect.apply, State.onCtl_ctls, if_pos rfl] at running
      cases running

theorem Processes.closed_go (slot : SlotId τ)
    (closed : ((effect.apply state thread).slots slot).closed = true) :
    ((effect.apply state thread).slots slot).ctl = none ∨ ∃ other closer,
      ((effect.apply state thread).set thread after).threads other = .killing slot closer := by
  have fits := goes.fits (kept.places thread)
  by_cases already : (state.slots slot).closed = true
  · rcases kept.closed slot already with empty | ⟨other, closer, killing⟩
    · exact .inl (fits.empty_kept already empty)
    · by_cases its : other = thread
      · subst its
        rw [goes.killing_kept killing, Effect.apply, State.killCtl_slots, if_pos rfl]
        exact .inl rfl
      · exact .inr ⟨other, closer, by rw [threads_after, if_neg its]; exact killing⟩
  · by_cases shuts : effect = .shut slot
    · subst shuts
      generalize state.threads thread = before at goes
      cases goes with
      | shut _ closer => exact .inr ⟨thread, closer, by rw [threads_after, if_pos rfl]⟩
    · exfalso
      apply already
      by_cases changes : effect.slot = some slot
      · cases effect <;> cases changes
        all_goals
          simp [Effect.apply, State.lock, State.unlock, State.onSlot_slots,
            State.killCtl_slots, State.endSession_slots, State.install_slots] at closed shuts
        all_goals exact closed
      · rw [Effect.slots_other changes] at closed
        exact closed

theorem Processes.go : Processes ((effect.apply state thread).set thread after) where
  places := kept.places_go goes
  unmade := kept.unmade_go goes
  inSlot := kept.inSlot_go goes
  running := kept.running_go goes
  unstored := kept.unstored_go goes
  closed := kept.closed_go goes

end

end EclipseOS.Inferenced.Slots
