import EclipseOS.Inferenced.Processes
import Mathlib.Data.List.Perm.Subperm

/-! # Registered slots

Which slots the session table has, and what became of the others: over any interleaving
of requests, closes and sweeps. -/

namespace EclipseOS.Inferenced.Slots

open Foundation

variable {τ : Type} [DecidableEq τ]

/-- No request has the slot in hand, and no process runs that was started in it. -/
def Idle (state : State τ) (slot : SlotId τ) : Prop :=
  (∀ thread, (state.threads thread).inHand ≠ some slot) ∧
    ∀ ctl, ctl.1 = slot → (state.ctls ctl).running = false

inductive Standing (state : State τ) (slot : SlotId τ) : Prop
  | registered (there : state.registered slot)
  | closed (closed : (state.slots slot).closed = true)
  | closing (thread : Nat) (closing : state.threads thread = .closing slot .request)
  | idle (idle : Idle state slot)

/-- A request that gives up its empty slot leaves none to a request that has it in hand. -/
def Quiet (state : State τ) : Move τ → Prop
  | .act thread _ => ∀ slot, state.threads thread = .forgetting slot → state.registered slot →
      (state.slots slot).closed = true ∨ Idle state slot
  | _ => True

structure Inv (maxSessions : Nat) (state : State τ) : Prop where
  processes : Processes state
  threads : ∀ thread, state.nextThread ≤ thread → state.threads thread = .absent
  size : state.table.entries.length ≤ maxSessions
  standing : ∀ slot, slot.2 < state.nextSlot → Standing state slot

variable {state : State τ} {maxSessions thread : Nat} {after : Pc τ} {effect : Effect τ}

section

variable (goes : Goes maxSessions state (state.threads thread) effect after)

include goes

theorem Goes.inHand_from {slot : SlotId τ} (inHand : after.inHand = some slot) :
    (state.threads thread).inHand = some slot ∨ state.registered slot ∨
      ∃ task, effect = .enter task ∧ slot = (task, state.nextSlot) := by
  generalize state.threads thread = before at goes
  cases goes
  case found there =>
    cases inHand
    exact .inr (.inl there)
  case made task _ _ _ =>
    cases inHand
    exact .inr (.inr ⟨task, rfl, rfl⟩)
  all_goals simp_all [Pc.inHand]

theorem Goes.closing_kept {slot : SlotId τ} {closer : Closer τ}
    (closing : state.threads thread = .closing slot closer) : effect = .shut slot := by
  rw [closing] at goes
  cases goes
  rfl

theorem Goes.present : state.threads thread ≠ .absent := by
  intro absent
  rw [absent] at goes
  cases goes

theorem Goes.erase_from {slot : SlotId τ} (erases : effect = .erase slot) :
    state.registered slot ∧ ((state.threads thread).sawClosed = some slot ∨
      state.threads thread = .forgetting slot ∨ after = .closing slot .request) := by
  generalize state.threads thread = before at goes
  cases goes <;> simp_all [Pc.sawClosed]

theorem Goes.enter_from {task : τ} (enters : effect = .enter task) :
    state.table.lookup task = none ∧ state.table.entries.length < maxSessions := by
  generalize state.threads thread = before at goes
  cases goes <;> cases enters
  exact ⟨by assumption, by assumption⟩

end

omit [DecidableEq τ] in
theorem Pc.inHand_of_started {pc : Pc τ} {ctl : CtlId τ} (here : pc.started = some ctl) :
    pc.inHand = some ctl.1 := by
  cases pc <;> cases here <;> rfl

theorem Idle.go {slot : SlotId τ} (idle : Idle state slot)
    (goes : Goes maxSessions state (state.threads thread) effect after)
    (gone : ¬state.registered slot) (made : slot.2 < state.nextSlot) :
    Idle ((effect.apply state thread).set thread after) slot := by
  refine ⟨?_, ?_⟩
  · intro other
    rw [threads_after]
    split_ifs
    · intro inHand
      rcases goes.inHand_from inHand with before | there | ⟨task, -, rfl⟩
      · exact idle.1 thread before
      · exact gone there
      · exact Nat.lt_irrefl _ made
    · exact idle.1 other
  · intro ctl same
    change ((effect.apply state thread).ctls ctl).running = false
    have before := idle.2 ctl same
    rcases Effect.ctls_cases ctl with kept | killed | ⟨change, about⟩
    · rw [kept, before]
    · rw [killed, Ctl.kill, before, Bool.false_and]
    · rcases goes.onCtl_from about with ⟨-, -, started⟩ | ⟨rfl, -, -⟩ | rfl
      · exact absurd (same ▸ Pc.inHand_of_started started) (idle.1 thread)
      · rw [about, Effect.apply, State.onCtl_ctls, if_pos rfl]
        exact before
      · rw [about, Effect.apply, State.onCtl_ctls, if_pos rfl]

section

variable (inv : Inv maxSessions state)
  (goes : Goes maxSessions state (state.threads thread) effect after)

include inv goes

theorem Inv.threads_go (other : Nat)
    (unused : ((effect.apply state thread).set thread after).nextThread ≤ other) :
    ((effect.apply state thread).set thread after).threads other = .absent := by
  rw [State.set, Effect.nextThread] at unused
  have before := inv.threads other unused
  rw [threads_after, if_neg]
  · exact before
  · rintro rfl
    exact goes.present before

theorem Inv.size_go : (effect.apply state thread).table.entries.length ≤ maxSessions := by
  cases effect
  case enter task =>
    rcases goes.enter_from rfl with ⟨absent, room⟩
    rw [Effect.apply, AList.entries_insert_of_notMem (AList.lookup_eq_none.mp absent)]
    exact room
  case erase slot =>
    have shorter : (state.table.erase slot.1).entries.length ≤ state.table.entries.length :=
      (List.kerase_sublist slot.1 state.table.entries).length_le
    exact Nat.le_trans shorter inv.size
  all_goals
    rw [Effect.table]
    · exact inv.size
    all_goals rintro _ ⟨⟩

theorem Inv.registered_go
    (quiet : ∀ slot, state.threads thread = .forgetting slot → state.registered slot →
      (state.slots slot).closed = true ∨ Idle state slot)
    {slot : SlotId τ} (there : state.registered slot) :
    Standing ((effect.apply state thread).set thread after) slot := by
  have made := inv.processes.unmade.registered slot there
  have stays : (effect.apply state thread).table.lookup slot.1 = some slot.2 →
      Standing ((effect.apply state thread).set thread after) slot := fun there =>
    .registered there
  cases effect
  case enter task =>
    refine stays (Table.lookup_insert_eq_some.mpr (.inr ⟨?_, there⟩))
    rintro rfl
    rw [State.registered, (goes.enter_from rfl).1] at there
    cases there
  case erase other =>
    by_cases same : slot.1 = other.1
    · rcases goes.erase_from rfl with ⟨otherThere, how⟩
      have equal : slot = other := by
        refine Prod.ext same ?_
        rw [State.registered, same] at there
        exact Option.some.inj (there.symm.trans otherThere)
      subst equal
      rcases how with saw | gives | closing
      · exact .closed ((inv.processes.places thread).shut slot saw)
      · rcases quiet slot gives there with closed | idle
        · exact .closed closed
        · refine .idle ⟨fun other => ?_, idle.2⟩
          rw [threads_after]
          split_ifs
          · rw [gives] at goes
            cases goes
            exact nofun
          · exact idle.1 other
      · exact .closing thread (by rw [threads_after, if_pos rfl, closing])
    · exact stays (Table.lookup_erase_eq_some.mpr ⟨same, there⟩)
  all_goals
    refine stays ?_
    rw [Effect.table]
    · exact there
    all_goals rintro _ ⟨⟩

theorem Inv.standing_go
    (quiet : ∀ slot, state.threads thread = .forgetting slot → state.registered slot →
      (state.slots slot).closed = true ∨ Idle state slot)
    (slot : SlotId τ) (made : slot.2 < (effect.apply state thread).nextSlot) :
    Standing ((effect.apply state thread).set thread after) slot := by
  by_cases there : state.registered slot
  · exact inv.registered_go goes quiet there
  · by_cases already : slot.2 < state.nextSlot
    · cases inv.standing slot already with
      | registered there' => exact absurd there' there
      | closed closed => exact .closed (Effect.closed closed)
      | closing other closing =>
        by_cases its : other = thread
        · subst its
          rw [goes.closing_kept closing]
          refine .closed ?_
          change ((Effect.apply state other (.shut slot)).slots slot).closed = true
          rw [Effect.apply, State.onSlot_slots, if_pos rfl]
        · exact .closing other (by rw [threads_after, if_neg its]; exact closing)
      | idle idle => exact .idle (idle.go goes there already)
    · cases effect
      case enter task =>
        have number : slot.2 = state.nextSlot :=
          Nat.le_antisymm (Nat.le_of_lt_succ made) (Nat.le_of_not_lt already)
        by_cases its : slot.1 = task
        · exact .registered (Table.lookup_insert_eq_some.mpr (.inl ⟨its, number.symm⟩))
        · -- No slot has this number and another task.
          refine .idle ⟨fun other => ?_, fun ctl same => ?_⟩
          · rw [threads_after]
            split_ifs
            · intro inHand
              rcases goes.inHand_from inHand with before | there' | ⟨_, same, rfl⟩
              · exact already ((inv.processes.places thread).made slot
                  (Pc.mem_refs_of_inHand before))
              · exact there there'
              · cases same
                exact its rfl
            · intro inHand
              exact already ((inv.processes.places other).made slot
                (Pc.mem_refs_of_inHand inHand))
          · change (state.ctls ctl).running = false
            by_contra runs
            have below := inv.processes.made (Bool.of_not_eq_false runs)
            exact already (same ▸ below)
      all_goals
        exfalso
        apply already
        simpa [Effect.apply, State.lock, State.unlock, State.kill] using made

end

end EclipseOS.Inferenced.Slots

/-! ## Closing

Over every run of the router's threads: each process that runs is accounted for, and a
slot that a close took off the table is done with when the close returns. -/

namespace EclipseOS.Inferenced.Slots

open Foundation

variable {τ : Type} [DecidableEq τ]

/-- The process is the one of its slot, and the slot is in the table or being closed. -/
def Accounted (state : State τ) (ctl : CtlId τ) : Prop :=
  (state.slots ctl.1).ctl = some ctl ∧
    (state.registered ctl.1 ∨ ∃ thread closer,
      state.threads thread = .closing ctl.1 closer ∨ state.threads thread = .killing ctl.1 closer)

/-- The process of a slot that is in the table. -/
def Registered (state : State τ) (ctl : CtlId τ) : Prop :=
  (state.ctls ctl).running = true ∧ (state.slots ctl.1).ctl = some ctl ∧ state.registered ctl.1

structure Accounts (maxSessions : Nat) (state : State τ) : Prop where
  processes : ∀ ctl, (state.ctls ctl).running = true →
    Accounted state ctl ∨ Overtaken state ctl
  size : ∀ ctls : List (CtlId τ), ctls.Nodup → (∀ ctl ∈ ctls, Registered state ctl) →
    ctls.length ≤ maxSessions
  one : ∀ ctl other, Registered state ctl → Registered state other → ctl.1.1 = other.1.1 →
    ctl = other
  /-- Where a close has returned, what still runs is a start that has yet to find it out,
  and no request is in a turn. -/
  closed : ∀ thread slot, state.threads thread = .returned (some slot) →
    ∀ ctl, ctl.1 = slot → (state.ctls ctl).running = true →
      Overtaken state ctl ∧ ∀ other, state.threads other ≠ .turn slot

variable {state : State τ} {maxSessions : Nat}

omit [DecidableEq τ] in
theorem spawn_threads (pc : Pc τ) (other : Nat) :
    (state.spawn pc).threads other =
      if other = state.nextThread then pc else state.threads other :=
  Function.update_apply ..

theorem Inv.spawn_keeps (inv : Inv maxSessions state) (pc : Pc τ) {other : Nat}
    (present : state.threads other ≠ .absent) :
    (state.spawn pc).threads other = state.threads other := by
  rw [spawn_threads, if_neg]
  rintro rfl
  exact present (inv.threads _ le_rfl)

theorem Inv.spawn (inv : Inv maxSessions state) {pc : Pc τ}
    (at_ : At state state.nextThread pc) (free : ∀ slot, pc.inHand ≠ some slot) :
    Inv maxSessions (state.spawn pc) := by
  have kept := inv.processes
  refine ⟨⟨?_, ⟨kept.unmade.slots, kept.unmade.ctls, kept.unmade.registered⟩, kept.inSlot,
    ?_, ?_, ?_⟩, ?_, inv.size, ?_⟩
  · intro thread
    rw [spawn_threads]
    split_ifs with same
    · exact same ▸ at_.of_same rfl rfl rfl rfl
    · exact (kept.places thread).of_same rfl rfl rfl rfl
  · intro ctl running
    rcases kept.running ctl running with there | ⟨dead, thread, rising⟩
    · exact .inl there
    · refine .inr ⟨dead, thread, ?_⟩
      rw [inv.spawn_keeps pc]
      · exact rising
      · intro absent
        rw [absent] at rising
        cases rising
  · intro ctl running
    rcases kept.unstored ctl running with stored | ⟨thread, spawned⟩
    · exact .inl stored
    · refine .inr ⟨thread, ?_⟩
      rw [inv.spawn_keeps pc]
      · exact spawned
      · rw [spawned]
        exact nofun
  · intro slot closed
    rcases kept.closed slot closed with empty | ⟨thread, closer, killing⟩
    · exact .inl empty
    · refine .inr ⟨thread, closer, ?_⟩
      rw [inv.spawn_keeps pc]
      · exact killing
      · rw [killing]
        exact nofun
  · intro thread unused
    rw [spawn_threads, if_neg (Nat.ne_of_gt unused)]
    exact inv.threads thread (Nat.le_of_lt unused)
  · intro slot made
    cases inv.standing slot made with
    | registered there => exact .registered there
    | closed closed => exact .closed closed
    | closing thread closing =>
      refine .closing thread ?_
      rw [inv.spawn_keeps pc]
      · exact closing
      · rw [closing]
        exact nofun
    | idle idle =>
      refine .idle ⟨fun thread => ?_, idle.2⟩
      rw [spawn_threads]
      split_ifs
      · exact free slot
      · exact idle.1 thread

theorem Inv.exits (inv : Inv maxSessions state) (ended : CtlId τ) :
    Inv maxSessions (state.onCtl ended fun c => { c with running := false }) := by
  have kept := inv.processes
  have ctls : ∀ ctl, (state.onCtl ended fun c => { c with running := false }).ctls ctl =
      state.ctls ctl ∨ ctl = ended ∧
        (state.onCtl ended fun c => { c with running := false }).ctls ctl =
          { state.ctls ctl with running := false } := by
    intro ctl
    rw [State.onCtl_ctls]
    split_ifs with same
    · exact .inr ⟨same, same ▸ rfl⟩
    · exact .inl rfl
  have ran : ∀ ctl,
      ((state.onCtl ended fun c => { c with running := false }).ctls ctl).running = true →
        (state.onCtl ended fun c => { c with running := false }).ctls ctl = state.ctls ctl := by
    intro ctl running
    rcases ctls ctl with same | ⟨-, ended⟩
    · exact same
    · rw [ended] at running
      cases running
  refine ⟨⟨?_, ⟨kept.unmade.slots, ?_, kept.unmade.registered⟩, kept.inSlot, ?_, ?_,
    kept.closed⟩, inv.threads, inv.size, ?_⟩
  · intro thread
    rcases kept.places thread with
      ⟨lock, made, numbered, shut, done, unspawned, unstored, placed, current⟩
    refine ⟨lock, made, numbered, shut, done, ?_, ?_, ?_, ?_⟩
    · intro ctl here
      rcases ctls ctl with same | ⟨-, ended⟩
      · rw [same]
        exact unspawned ctl here
      · rw [ended]
        exact ⟨rfl, (unspawned ctl here).2⟩
    · intro ctl here
      rcases ctls ctl with same | ⟨-, ended⟩
      · rw [same]
        exact unstored ctl here
      · rw [ended]
        exact unstored ctl here
    · intro ctl here running
      have same := ran ctl running
      rw [same] at running ⊢
      exact placed ctl here running
    · intro ctl here
      rcases ctls ctl with same | ⟨-, ended⟩
      · rw [same]
        exact current ctl here
      · rw [ended]
        exact current ctl here
  · intro ctl unnumbered
    rcases ctls ctl with same | ⟨-, ended⟩
    · exact same.trans (kept.unmade.ctls ctl unnumbered)
    · rw [ended, kept.unmade.ctls ctl unnumbered]
      rfl
  · intro ctl running
    have same := ran ctl running
    rw [same] at running
    rcases kept.running ctl running with there | ⟨dead, rising⟩
    · exact .inl there
    · exact .inr ⟨by rw [same]; exact dead, rising⟩
  · intro ctl running
    have same := ran ctl running
    rw [same] at running ⊢
    exact kept.unstored ctl running
  · intro slot made
    cases inv.standing slot made with
    | registered there => exact .registered there
    | closed closed => exact .closed closed
    | closing thread closing => exact .closing thread closing
    | idle idle =>
      refine .idle ⟨idle.1, fun ctl here => ?_⟩
      rcases ctls ctl with same | ⟨-, ended⟩
      · rw [same]
        exact idle.2 ctl here
      · rw [ended]

theorem Inv.new : Inv maxSessions (State.new : State τ) := by
  have notThere : ∀ slot : SlotId τ, ¬(State.new : State τ).registered slot := by
    intro slot there
    rw [State.registered, State.new, AList.lookup_empty] at there
    cases there
  refine ⟨⟨?_, ⟨fun _ _ => rfl, fun _ _ => rfl, ?_⟩, ?_, ?_, ?_, ?_⟩, fun _ _ => rfl,
    Nat.zero_le _, ?_⟩
  · intro thread
    refine ⟨?_, ?_, ?_, ?_, ?_, ?_, ?_, ?_, ?_⟩ <;> intro _ here <;> cases here
  · intro slot there
    exact absurd there (notThere slot)
  · intro slot ctl there
    cases there
  · intro ctl running
    cases running
  · intro ctl running
    cases running
  · intro slot closed
    cases closed
  · intro slot made
    cases made

theorem Inv.step (inv : Inv maxSessions state) {move : Move τ} (quiet : Quiet state move) :
    Inv maxSessions (step maxSessions state move) := by
  cases move with
  | complete task =>
    refine inv.spawn ?_ (fun _ => nofun)
    refine ⟨?_, ?_, ?_, ?_, ?_, ?_, ?_, ?_, ?_⟩ <;> intro _ here <;> cases here
  | close task =>
    refine inv.spawn ?_ (fun _ => nofun)
    refine ⟨?_, ?_, ?_, ?_, ?_, ?_, ?_, ?_, ?_⟩ <;> intro _ here <;> cases here
  | sweep =>
    refine inv.spawn ?_ (fun _ => nofun)
    refine ⟨nofun, ?_, nofun, nofun, nofun, nofun, nofun, nofun, nofun⟩
    intro slot ref
    rcases List.mem_map.mp ref with ⟨entry, member, rfl⟩
    exact inv.processes.unmade.registered _ (Table.lookup_eq_some.mpr member)
  | act thread outcome =>
    rw [Slots.step]
    rcases act_goes maxSessions state thread outcome with same | ⟨effect, after, goes, same⟩
    · rw [same]
      exact inv
    · rw [same]
      exact ⟨inv.processes.go goes, inv.threads_go goes, inv.size_go goes,
        inv.standing_go goes quiet⟩
  | exits ctl => exact inv.exits ctl

theorem inv_run (maxSessions : Nat) (moves : List (Move τ))
    (quiet : Along (step maxSessions) Quiet State.new moves) :
    Inv maxSessions (run maxSessions moves) := by
  refine history (Along (Slots.step maxSessions) Quiet State.new)
    (fun past move fits => (along_snoc.mp fits).1) Inv.new ?_ moves quiet
  intro past move fits inv
  rw [run, List.foldl_append]
  exact inv.step (along_snoc.mp fits).2

theorem Inv.accounted (inv : Inv maxSessions state) {ctl : CtlId τ}
    (running : (state.ctls ctl).running = true) :
    Accounted state ctl ∨ Overtaken state ctl := by
  rcases inv.processes.running ctl running with there | overtaken
  · refine .inl ⟨there, ?_⟩
    cases inv.standing ctl.1 (inv.processes.made running) with
    | registered registered => exact .inl registered
    | closed closed =>
      rcases inv.processes.closed ctl.1 closed with empty | ⟨thread, closer, killing⟩
      · rw [there] at empty
        cases empty
      · exact .inr ⟨thread, closer, .inr killing⟩
    | closing thread closing => exact .inr ⟨thread, .request, .inl closing⟩
    | idle idle =>
      rw [idle.2 ctl rfl] at running
      cases running
  · exact .inr overtaken

theorem registered_eq {ctl other : CtlId τ} (one : Registered state ctl)
    (two : Registered state other) (sameTask : ctl.1.1 = other.1.1) : ctl = other := by
  rcases one with ⟨-, inSlot, there⟩
  rcases two with ⟨-, otherInSlot, otherThere⟩
  have sameSlot : ctl.1 = other.1 := by
    refine Prod.ext sameTask ?_
    rw [State.registered, sameTask] at there
    exact Option.some.inj (there.symm.trans otherThere)
  rw [sameSlot] at inSlot
  exact Option.some.inj (inSlot.symm.trans otherInSlot)

theorem registered_le (ctls : List (CtlId τ)) (nodup : ctls.Nodup)
    (registered : ∀ ctl ∈ ctls, Registered state ctl) :
    ctls.length ≤ state.table.entries.length := by
  have distinct : (ctls.map fun ctl => ctl.1.1).Nodup := by
    refine nodup.map_on ?_
    intro ctl member other otherMember same
    exact registered_eq (registered ctl member) (registered other otherMember) same
  have inside : ∀ task ∈ ctls.map fun ctl => ctl.1.1, task ∈ state.table.keys := by
    intro task member
    rcases List.mem_map.mp member with ⟨ctl, isOne, rfl⟩
    have found : state.table.lookup ctl.1.1 = some ctl.1.2 := (registered ctl isOne).2.2
    exact List.mem_keys_of_mem (Table.lookup_eq_some.mp found)
  have shorter := (List.subperm_of_subset distinct inside).length_le
  rw [List.length_map] at shorter
  exact Nat.le_trans shorter (Nat.le_of_eq (List.length_map ..))

theorem Inv.overtaken (inv : Inv maxSessions state) {thread : Nat} {ctl : CtlId τ}
    (returned : state.threads thread = .returned (some ctl.1))
    (running : (state.ctls ctl).running = true) :
    Overtaken state ctl ∧ ∀ other, state.threads other ≠ .turn ctl.1 := by
  have empty := (inv.processes.places thread).done ctl.1 returned
  rcases inv.processes.running ctl running with there | overtaken
  · rw [empty] at there
    cases there
  · refine ⟨overtaken, ?_⟩
    rcases overtaken with ⟨-, starter, rising⟩
    intro other turn
    have starts := (inv.processes.places starter).lock ctl.1
      (Pc.holds_of_ctl (Pc.ctl_of_rising rising))
    have turns := (inv.processes.places other).lock ctl.1 (by rw [turn]; rfl)
    rw [starts] at turns
    cases turns
    rw [turn] at rising
    cases rising

/-- Over every interleaving of requests, closes and sweeps, and of processes that end,
every process that runs is accounted for. -/
theorem processes_accounted (maxSessions : Nat) (moves : List (Move τ))
    (quiet : Along (step maxSessions) Quiet State.new moves) :
    Accounts maxSessions (run maxSessions moves) := by
  have inv := inv_run maxSessions moves quiet
  refine ⟨fun ctl => inv.accounted, ?_, ?_, ?_⟩
  · intro ctls nodup registered
    exact Nat.le_trans (registered_le ctls nodup registered) inv.size
  · intro ctl other
    exact registered_eq
  · rintro thread _ returned ctl rfl running
    exact inv.overtaken returned running

/-- A request spawns its process while a close of its task comes and goes. -/
def closedMeanwhile : List (Move Nat) :=
  [.complete 5, .act 0 true, .act 0 true, .act 0 true, .act 0 true, .act 0 true, .act 0 true,
    .act 0 true, .close 5, .act 1 true, .act 1 true, .act 1 true]

theorem closedMeanwhile_accounted :
    Accounts 8 (run 8 closedMeanwhile) ∧
      ((run 8 closedMeanwhile).ctls ((5, 0), 0)).running = true := by
  refine ⟨processes_accounted 8 closedMeanwhile ?_, by decide⟩
  refine ⟨?_, ?_, ?_, ?_, ?_, ?_, ?_, ?_, ?_, ?_, ?_, ?_, trivial⟩
  all_goals first
    | trivial
    | intro slot gives; cases gives

/-- A request whose start fails gives its slot up when another has already taken it over:
the process that is then started is in no registered slot. -/
example :
    let state := run 8 ([.complete 5, .act 0 true, .complete 5, .act 1 true, .act 0 true,
      .act 0 true, .act 0 true, .act 0 false, .act 0 true, .act 1 true, .act 0 true,
      .act 1 true, .act 1 true, .act 1 true, .act 1 true, .act 1 true, .act 1 true,
      .act 1 true] : List (Move Nat))
    (state.ctls ((5, 0), 0)).running = true ∧ ¬state.registered (5, 0) ∧
      state.threads 1 = .turn (5, 0) := by
  refine ⟨by decide, by decide, rfl⟩

/-- A request has found its slot when its task is closed; it looks again, and starts a
process in a slot of its own. -/
def looksAgain : List (Move Nat) :=
  [.complete 5, .act 0 true, .close 5, .act 1 true, .act 1 true, .act 1 true, .act 0 true,
    .act 0 true, .act 0 true, .act 0 true, .act 0 true, .act 0 true, .act 0 true, .act 0 true,
    .act 0 true, .act 0 true, .act 0 true]

/-- A process is started for a request that was let in before the close. -/
theorem close_not_final :
    ¬∀ (maxSessions : Nat) (moves : List (Move Nat)) (request closer : Nat)
      (slot : SlotId Nat) (ctl : CtlId Nat), request < closer →
        (run maxSessions moves).threads closer = .returned (some slot) →
          (run maxSessions moves).threads request = .spawned ctl → ctl.1.1 = slot.1 →
            ((run maxSessions moves).ctls ctl).running = false := by
  intro final
  have ended := final 8 looksAgain 0 1 (5, 0) ((5, 1), 0) (by decide) rfl rfl rfl
  revert ended
  decide

end EclipseOS.Inferenced.Slots
