import EclipseOS.Inferenced.Slots

/-! # Effects

What one step of a thread does to what the threads share, apart from where the thread
itself then is; and each step as such an effect. -/

namespace EclipseOS.Inferenced.Slots

open Foundation

variable {τ : Type}

/-- The slot whose session lock a thread holds. -/
def Pc.holds : Pc τ → Option (SlotId τ)
  | .locked _ slot | .closedSeen _ slot | .plan slot | .starting slot | .turn slot
  | .leaving slot | .visiting slot _ | .closing slot (.reaper _) | .killing slot (.reaper _)
  | .reaped slot _ => some slot
  | .install ctl | .preparing ctl | .spawned ctl | .stored ctl | .aborting ctl => some ctl.1
  | _ => none

/-- The slot a request has found and not yet let go. -/
def Pc.inHand : Pc τ → Option (SlotId τ)
  | .found _ slot | .locked _ slot | .closedSeen _ slot | .plan slot | .starting slot
  | .turn slot | .leaving slot => some slot
  | .install ctl | .preparing ctl | .spawned ctl | .stored ctl | .aborting ctl => some ctl.1
  | _ => none

inductive Effect (τ : Type) where
  | skip
  | lock (slot : SlotId τ)
  | unlock (slot : SlotId τ)
  | kill (ctl : CtlId τ)
  | killCtl (slot : SlotId τ)
  | endSession (slot : SlotId τ)
  | number
  | install (ctl : CtlId τ)
  | onCtl (ctl : CtlId τ) (change : Ctl → Ctl)
  | begin (slot : SlotId τ)
  | shut (slot : SlotId τ)
  | enter (task : τ)
  | erase (slot : SlotId τ)

variable [DecidableEq τ]

def Effect.apply (state : State τ) (thread : Nat) : Effect τ → State τ
  | skip => state
  | lock slot => state.lock slot thread
  | unlock slot => state.unlock slot
  | kill ctl => state.kill ctl
  | killCtl slot => state.killCtl slot
  | endSession slot => state.endSession slot
  | number => { state with seq := state.seq + 1 }
  | install ctl => state.install ctl
  | onCtl ctl change => state.onCtl ctl change
  | begin slot => state.onSlot slot fun s => { s with session := true }
  | shut slot => state.onSlot slot fun s => { s with closed := true }
  | enter task =>
    { state with
      table := state.table.insert task state.nextSlot
      nextSlot := state.nextSlot + 1 }
  | erase slot => { state with table := state.table.erase slot.1 }

namespace State

variable (state : State τ) (slot other : SlotId τ) (ctl : CtlId τ) (thread : Nat)

theorem onSlot_slots (change : Slot τ → Slot τ) :
    (state.onSlot slot change).slots other =
      if other = slot then change (state.slots slot) else state.slots other :=
  Function.update_apply ..

theorem onCtl_ctls (change : Ctl → Ctl) (other : CtlId τ) :
    (state.onCtl ctl change).ctls other =
      if other = ctl then change (state.ctls ctl) else state.ctls other :=
  Function.update_apply ..

@[simp] theorem onSlot_ctls (change : Slot τ → Slot τ) :
    (state.onSlot slot change).ctls = state.ctls := rfl

@[simp] theorem onSlot_nextSlot (change : Slot τ → Slot τ) :
    (state.onSlot slot change).nextSlot = state.nextSlot := rfl

@[simp] theorem onSlot_seq (change : Slot τ → Slot τ) :
    (state.onSlot slot change).seq = state.seq := rfl

@[simp] theorem onCtl_slots (change : Ctl → Ctl) :
    (state.onCtl ctl change).slots = state.slots := rfl

@[simp] theorem onCtl_nextSlot (change : Ctl → Ctl) :
    (state.onCtl ctl change).nextSlot = state.nextSlot := rfl

@[simp] theorem onCtl_seq (change : Ctl → Ctl) : (state.onCtl ctl change).seq = state.seq := rfl

theorem killCtl_slots :
    (state.killCtl slot).slots other =
      if other = slot then { state.slots slot with ctl := none } else state.slots other := by
  unfold killCtl
  split
  · rename_i empty
    split_ifs with same
    · rw [same, ← empty]
    · rfl
  · exact onSlot_slots _ slot other _

theorem killCtl_ctls :
    (state.killCtl slot).ctls ctl =
      if (state.slots slot).ctl = some ctl then (state.ctls ctl).kill else state.ctls ctl := by
  unfold killCtl
  split
  · rename_i empty
    rw [empty, if_neg nofun]
  · rename_i current there
    rw [there]
    by_cases same : ctl = current
    · rw [same, if_pos rfl]
      exact (onCtl_ctls state current _ current).trans (if_pos rfl)
    · rw [if_neg fun equal => same (Option.some.inj equal).symm]
      exact (onCtl_ctls state current _ ctl).trans (if_neg same)

theorem endSession_slots :
    (state.endSession slot).slots other =
      if other = slot then { state.slots slot with session := false, ctl := none }
      else state.slots other := by
  rw [endSession, onSlot_slots, killCtl_slots, killCtl_slots, if_pos rfl]
  split_ifs <;> rfl

theorem endSession_ctls :
    (state.endSession slot).ctls ctl =
      if (state.slots slot).ctl = some ctl then (state.ctls ctl).kill else state.ctls ctl :=
  killCtl_ctls ..

theorem install_slots (installed : CtlId τ) :
    (state.install installed).slots other =
      if other = installed.1 then { state.slots other with ctl := some installed }
      else state.slots other := by
  rw [install, onSlot_slots, killCtl_slots, killCtl_slots, if_pos rfl]
  split_ifs with same
  · rw [same]
  · rfl

theorem install_ctls (installed : CtlId τ) :
    (state.install installed).ctls ctl =
      if (state.slots installed.1).ctl = some ctl then (state.ctls ctl).kill
      else state.ctls ctl :=
  killCtl_ctls ..

@[simp] theorem killCtl_table : (state.killCtl slot).table = state.table := by
  unfold killCtl
  split <;> rfl

@[simp] theorem killCtl_nextSlot : (state.killCtl slot).nextSlot = state.nextSlot := by
  unfold killCtl
  split <;> rfl

@[simp] theorem killCtl_seq : (state.killCtl slot).seq = state.seq := by
  unfold killCtl
  split <;> rfl

@[simp] theorem killCtl_threads : (state.killCtl slot).threads = state.threads := by
  unfold killCtl
  split <;> rfl

@[simp] theorem killCtl_nextThread : (state.killCtl slot).nextThread = state.nextThread := by
  unfold killCtl
  split <;> rfl

@[simp] theorem endSession_nextSlot : (state.endSession slot).nextSlot = state.nextSlot :=
  state.killCtl_nextSlot slot

@[simp] theorem endSession_seq : (state.endSession slot).seq = state.seq :=
  state.killCtl_seq slot

@[simp] theorem install_nextSlot : (state.install ctl).nextSlot = state.nextSlot :=
  state.killCtl_nextSlot ctl.1

@[simp] theorem install_seq : (state.install ctl).seq = state.seq := state.killCtl_seq ctl.1

end State

/-- Where a thread can go from where it is, with what effect. -/
inductive Goes (maxSessions : Nat) (state : State τ) : Pc τ → Effect τ → Pc τ → Prop
  | exhausted (task : τ) : Goes maxSessions state (.lookUp task 0) .skip .answered
  | refused (task : τ) (tries : Nat) :
      Goes maxSessions state (.lookUp task (tries + 1)) .skip .answered
  | found (task : τ) (tries number : Nat) (there : state.registered (task, number)) :
      Goes maxSessions state (.lookUp task (tries + 1)) .skip (.found tries (task, number))
  | made (task : τ) (tries : Nat) (absent : state.table.lookup task = none)
      (room : state.table.entries.length < maxSessions) :
      Goes maxSessions state (.lookUp task (tries + 1)) (.enter task)
        (.found tries (task, state.nextSlot))
  | locked (tries : Nat) (slot : SlotId τ) (free : (state.slots slot).holder = none) :
      Goes maxSessions state (.found tries slot) (.lock slot) (.locked tries slot)
  | closedSeen (tries : Nat) (slot : SlotId τ) (closed : (state.slots slot).closed = true) :
      Goes maxSessions state (.locked tries slot) .skip (.closedSeen tries slot)
  | plan (tries : Nat) (slot : SlotId τ) :
      Goes maxSessions state (.locked tries slot) .skip (.plan slot)
  | unlocked (tries : Nat) (slot : SlotId τ) :
      Goes maxSessions state (.closedSeen tries slot) (.unlock slot) (.retry tries slot)
  | again (tries : Nat) (slot : SlotId τ) (there : state.registered slot) :
      Goes maxSessions state (.retry tries slot) (.erase slot) (.lookUp slot.1 tries)
  | againGone (tries : Nat) (slot : SlotId τ) :
      Goes maxSessions state (.retry tries slot) .skip (.lookUp slot.1 tries)
  | live (slot : SlotId τ) : Goes maxSessions state (.plan slot) .skip (.turn slot)
  | fresh (slot : SlotId τ) :
      Goes maxSessions state (.plan slot) (.endSession slot) (.starting slot)
  | numbered (slot : SlotId τ) :
      Goes maxSessions state (.starting slot) .number (.install (slot, state.seq))
  | unstarted (slot : SlotId τ) : Goes maxSessions state (.starting slot) .skip (.leaving slot)
  | overtaken (ctl : CtlId τ) :
      Goes maxSessions state (.install ctl) (.kill ctl) (.leaving ctl.1)
  | installed (ctl : CtlId τ) (usable : (state.slots ctl.1).closed = false) :
      Goes maxSessions state (.install ctl) (.install ctl) (.preparing ctl)
  | spawned (ctl : CtlId τ) :
      Goes maxSessions state (.preparing ctl)
        (.onCtl ctl fun c => { c with running := true }) (.spawned ctl)
  | unspawned (ctl : CtlId τ) : Goes maxSessions state (.preparing ctl) .skip (.aborting ctl)
  | stored (ctl : CtlId τ) :
      Goes maxSessions state (.spawned ctl)
        (.onCtl ctl fun c => { c with stored := true }) (.stored ctl)
  | lost (ctl : CtlId τ) :
      Goes maxSessions state (.spawned ctl)
        (.onCtl ctl fun c => { c with running := false }) (.aborting ctl)
  | begun (ctl : CtlId τ) (alive : (state.ctls ctl).dead = false) :
      Goes maxSessions state (.stored ctl) (.begin ctl.1) (.turn ctl.1)
  | aborted (ctl : CtlId τ) : Goes maxSessions state (.stored ctl) .skip (.aborting ctl)
  | killed (ctl : CtlId τ) : Goes maxSessions state (.aborting ctl) (.kill ctl) (.leaving ctl.1)
  | done (slot : SlotId τ) : Goes maxSessions state (.turn slot) .skip (.leaving slot)
  | failed (slot : SlotId τ) :
      Goes maxSessions state (.turn slot) (.endSession slot) (.leaving slot)
  | left (slot : SlotId τ) :
      Goes maxSessions state (.leaving slot) (.unlock slot) .answered
  | leftEmpty (slot : SlotId τ) :
      Goes maxSessions state (.leaving slot) (.unlock slot) (.forgetting slot)
  | forgotten (slot : SlotId τ) (there : state.registered slot) :
      Goes maxSessions state (.forgetting slot) (.erase slot) .answered
  | forgottenGone (slot : SlotId τ) :
      Goes maxSessions state (.forgetting slot) .skip .answered
  | removed (task : τ) (number : Nat) (there : state.registered (task, number)) :
      Goes maxSessions state (.close task) (.erase (task, number))
        (.closing (task, number) .request)
  | nothing (task : τ) : Goes maxSessions state (.close task) .skip (.returned none)
  | shut (slot : SlotId τ) (closer : Closer τ) :
      Goes maxSessions state (.closing slot closer) (.shut slot) (.killing slot closer)
  | returned (slot : SlotId τ) :
      Goes maxSessions state (.killing slot .request) (.killCtl slot) (.returned (some slot))
  | reaped (slot : SlotId τ) (rest : List (SlotId τ)) :
      Goes maxSessions state (.killing slot (.reaper rest)) (.killCtl slot) (.reaped slot rest)
  | swept : Goes maxSessions state (.sweeping []) .skip .absent
  | visits (slot : SlotId τ) (rest : List (SlotId τ))
      (free : (state.slots slot).holder = none) :
      Goes maxSessions state (.sweeping (slot :: rest)) (.lock slot) (.visiting slot rest)
  | busy (slot : SlotId τ) (rest : List (SlotId τ)) :
      Goes maxSessions state (.sweeping (slot :: rest)) .skip (.sweeping rest)
  | reaps (slot : SlotId τ) (rest : List (SlotId τ)) :
      Goes maxSessions state (.visiting slot rest) .skip (.closing slot (.reaper rest))
  | spares (slot : SlotId τ) (rest : List (SlotId τ)) :
      Goes maxSessions state (.visiting slot rest) (.unlock slot) (.sweeping rest)
  | released (slot : SlotId τ) (rest : List (SlotId τ)) :
      Goes maxSessions state (.reaped slot rest) (.unlock slot) (.reapForget slot rest)
  | reapForgotten (slot : SlotId τ) (rest : List (SlotId τ)) (there : state.registered slot) :
      Goes maxSessions state (.reapForget slot rest) (.erase slot) (.sweeping rest)
  | reapForgottenGone (slot : SlotId τ) (rest : List (SlotId τ)) :
      Goes maxSessions state (.reapForget slot rest) .skip (.sweeping rest)

theorem act_goes (maxSessions : Nat) (state : State τ) (thread : Nat) (outcome : Bool) :
    state.act maxSessions thread outcome = state ∨
      ∃ effect pc, Goes maxSessions state (state.threads thread) effect pc ∧
        state.act maxSessions thread outcome = (effect.apply state thread).set thread pc := by
  generalize there : state.threads thread = pc
  unfold State.act
  rw [there]
  cases pc with
  | absent => exact .inl rfl
  | lookUp task tries =>
    cases tries with
    | zero => exact .inr ⟨_, _, .exhausted task, rfl⟩
    | succ tries =>
      dsimp only
      split
      · rename_i number found
        exact .inr ⟨_, _, .found task tries number found, rfl⟩
      · rename_i absent
        split_ifs with full
        · exact .inr ⟨_, _, .refused task tries, rfl⟩
        · exact .inr ⟨_, _, .made task tries absent (Nat.lt_of_not_le full), rfl⟩
  | found tries slot =>
    dsimp only
    split_ifs with free
    · exact .inr ⟨_, _, .locked tries slot free, rfl⟩
    · exact .inl rfl
  | locked tries slot =>
    dsimp only
    split_ifs with closed
    · exact .inr ⟨_, _, .closedSeen tries slot closed, rfl⟩
    · exact .inr ⟨_, _, .plan tries slot, rfl⟩
  | closedSeen tries slot => exact .inr ⟨_, _, .unlocked tries slot, rfl⟩
  | retry tries slot =>
    dsimp only [State.forget]
    split_ifs with registered
    · exact .inr ⟨_, _, .again tries slot registered, rfl⟩
    · exact .inr ⟨_, _, .againGone tries slot, rfl⟩
  | plan slot =>
    dsimp only
    split_ifs
    · exact .inr ⟨_, _, .live slot, rfl⟩
    · exact .inr ⟨_, _, .fresh slot, rfl⟩
  | starting slot =>
    dsimp only
    split_ifs
    · exact .inr ⟨_, _, .numbered slot, rfl⟩
    · exact .inr ⟨_, _, .unstarted slot, rfl⟩
  | install ctl =>
    dsimp only
    split_ifs with closed
    · exact .inr ⟨_, _, .overtaken ctl, rfl⟩
    · exact .inr ⟨_, _, .installed ctl (Bool.not_eq_true _ ▸ closed), rfl⟩
  | preparing ctl =>
    dsimp only
    split_ifs
    · exact .inr ⟨_, _, .spawned ctl, rfl⟩
    · exact .inr ⟨_, _, .unspawned ctl, rfl⟩
  | spawned ctl =>
    dsimp only
    split_ifs
    · exact .inr ⟨_, _, .stored ctl, rfl⟩
    · exact .inr ⟨_, _, .lost ctl, rfl⟩
  | stored ctl =>
    dsimp only
    split_ifs with alive
    · exact .inr ⟨_, _, .begun ctl (Bool.not_eq_true _ ▸ alive.2), rfl⟩
    · exact .inr ⟨_, _, .aborted ctl, rfl⟩
  | aborting ctl => exact .inr ⟨_, _, .killed ctl, rfl⟩
  | turn slot =>
    dsimp only
    split_ifs
    · exact .inr ⟨_, _, .done slot, rfl⟩
    · exact .inr ⟨_, _, .failed slot, rfl⟩
  | leaving slot =>
    dsimp only
    split_ifs
    · exact .inr ⟨_, _, .left slot, rfl⟩
    · exact .inr ⟨_, _, .leftEmpty slot, rfl⟩
  | forgetting slot =>
    dsimp only [State.forget]
    split_ifs with registered
    · exact .inr ⟨_, _, .forgotten slot registered, rfl⟩
    · exact .inr ⟨_, _, .forgottenGone slot, rfl⟩
  | answered => exact .inl rfl
  | close task =>
    dsimp only
    split
    · exact .inr ⟨_, _, .nothing task, rfl⟩
    · rename_i number found
      exact .inr ⟨_, _, .removed task number found, rfl⟩
  | closing slot closer => exact .inr ⟨_, _, .shut slot closer, rfl⟩
  | killing slot closer =>
    cases closer with
    | request => exact .inr ⟨_, _, .returned slot, rfl⟩
    | reaper rest => exact .inr ⟨_, _, .reaped slot rest, rfl⟩
  | returned slot => exact .inl rfl
  | sweeping rest =>
    cases rest with
    | nil => exact .inr ⟨_, _, .swept, rfl⟩
    | cons slot rest =>
      dsimp only
      split_ifs with free
      · exact .inr ⟨_, _, .visits slot rest free, rfl⟩
      · exact .inr ⟨_, _, .busy slot rest, rfl⟩
  | visiting slot rest =>
    dsimp only
    split_ifs
    · exact .inr ⟨_, _, .reaps slot rest, rfl⟩
    · exact .inr ⟨_, _, .spares slot rest, rfl⟩
  | reaped slot rest => exact .inr ⟨_, _, .released slot rest, rfl⟩
  | reapForget slot rest =>
    dsimp only [State.forget]
    split_ifs with registered
    · exact .inr ⟨_, _, .reapForgotten slot rest registered, rfl⟩
    · exact .inr ⟨_, _, .reapForgottenGone slot rest, rfl⟩

end EclipseOS.Inferenced.Slots
