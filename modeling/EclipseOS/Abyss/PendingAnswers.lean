import EclipseOS.Abyss.Enforce

/-! # Answers to waiting requests

What an answer may still do when the table in force has changed since the
request was deferred or prompted. -/

namespace EclipseOS.PolicyEval

variable [RegexEngine]

/-- A hard rule or a deny rule speaks against the request. -/
def Table.Objects (table : Table) (ctx : RequestCtx) : Prop :=
  (hard ctx).isSome ∨ ∃ rule ∈ table.rules.deny, rule.matches ctx

omit [RegexEngine] in
theorem hard_denies {ctx : RequestCtx} {decision : Decision}
    (found : hard ctx = some decision) : decision.outcome = .deny := by
  unfold hard at found
  split_ifs at found <;> cases found <;> rfl

theorem first_isSome {rules : List CompiledRule} {ctx : RequestCtx} :
    (first rules ctx).isSome ↔ ∃ rule ∈ rules, rule.matches ctx := by
  simp [first, List.find?_isSome]

theorem first_eq_none {rules : List CompiledRule} {ctx : RequestCtx} :
    first rules ctx = none ↔ ¬∃ rule ∈ rules, rule.matches ctx := by
  rw [← first_isSome, Option.not_isSome_iff_eq_none]

/-- The check denies for an objection, or because no rule of a later phase
matches. -/
theorem check_eq_deny_iff {table : Table} {ctx : RequestCtx} :
    (check table ctx).outcome = .deny ↔
      table.Objects ctx ∨
        ¬∃ rule ∈ table.rules.prompt ++ table.rules.defer ++ table.rules.allow,
          rule.matches ctx := by
  unfold check Table.Objects
  cases forced : hard ctx with
  | some decision => simp [hard_denies forced]
  | none =>
    simp only [Option.isSome_none, Bool.false_eq_true, false_or, List.mem_append,
      or_assoc, or_and_right, exists_or, ← first_isSome, Phases.inOrder, firstOfPhases]
    cases first table.rules.deny ctx <;> cases first table.rules.prompt ctx <;>
    cases first table.rules.defer ctx <;> cases first table.rules.allow ctx <;> simp

theorem afterDefer_fallthrough {table : Table} {ctx : RequestCtx} (rule : String) :
    (afterDefer table ctx rule (some .fallthrough)).outcome = .allow ↔
      ∃ rule ∈ table.rules.allow, rule.matches ctx := by
  rw [← first_isSome, afterDefer]
  cases first table.rules.allow ctx <;> simp

end EclipseOS.PolicyEval

namespace EclipseOS.Abyss

open PolicyEval

inductive Answer where
  | deferred (k : UInt64) (answer : Option DeferAnswer)
  | prompted (resolved : Resolved)
  deriving DecidableEq

section Answers

variable [RegexEngine]

namespace Compositor

def handle (state : Compositor) : Answer → Compositor
  | .deferred k answer => state.resolveDefer k answer
  | .prompted resolved => state.drain resolved

/-- Every act the answer executes is one the table in force does not deny. -/
def NeverOutlives (state : Compositor) (answer : Answer) : Prop :=
  ∀ act ∈ (state.handle answer).acts.drop state.acts.length,
    (state.world.decide act.request.agent act.request.act.capability
      act.request.provenanceEmpty act.window).outcome ≠ .deny

end Compositor

namespace World

def requestContext (agent : Agent) (req : Request) (window : Window) : RequestCtx :=
  context agent req.act.capability req.provenanceEmpty window

/-- Re-validation refuses the request, or no allow rule of the table in force
matches it, or the table does not object to it. -/
def FallthroughSafe (world : World) (req : Request) : Prop :=
  ∀ agent table window, world.agents req.agent = some agent → world.table = some table →
    world.revalidate req = .ok window →
    (∃ rule ∈ table.rules.allow, rule.matches (requestContext agent req window)) →
    ¬table.Objects (requestContext agent req window)

/-- Re-validation refuses the request, its target's class has risen, or there is a
table in force that does not object and has a rule for it. -/
def ConsentSafe (world : World) (req : Request) (askedClass : PolicyEval.Class) : Prop :=
  ∀ agent window, world.agents req.agent = some agent →
    world.revalidate req = .ok window → window.class.rank ≤ askedClass.rank →
    ∃ table, world.table = some table ∧
      ¬table.Objects (requestContext agent req window) ∧
      ∃ rule ∈ table.rules.prompt ++ table.rules.defer ++ table.rules.allow,
        rule.matches (requestContext agent req window)

end World

namespace Compositor

/-- When an answer stays within the table in force. -/
def AnswerSafe (state : Compositor) : Answer → Prop
  | .deferred k answer => ∀ req rule,
      state.defers.find? (fun entry => entry.1 = k) = some (k, req, rule) →
      answer = some .fallthrough → state.world.FallthroughSafe req
  | .prompted resolved => ∀ req askedClass, resolved.req.toNat < 2 ^ 32 →
      state.prompts.find? (fun entry => entry.1 = key resolved.agent resolved.req.toUInt32) =
        some (key resolved.agent resolved.req.toUInt32, req, askedClass) →
      (∃ mint, resolved.verdict = .proceed mint) → state.world.ConsentSafe req askedClass

@[simp] theorem acts_reply (state : Compositor) (req : Request) (status : Status)
    (detail : String) : (state.reply req status detail).acts = state.acts := rfl

@[simp] theorem acts_executeAndReply (state : Compositor) (req : Request)
    (window : Window) :
    (state.executeAndReply req window).acts = state.acts ++ [⟨req, window⟩] := by
  unfold executeAndReply execute
  dsimp only
  split <;> rfl

theorem acts_park (state : Compositor) (req : Request) (window : Window) :
    (state.park req window).1.acts = state.acts := by
  unfold park
  dsimp only
  split_ifs <;> rfl

@[simp] theorem acts_settle (state : Compositor) (req : Request) (window : Window)
    (decision : Decision) :
    (state.settle req window decision).acts =
      state.acts ++ if decision.outcome = .allow then [⟨req, window⟩] else [] := by
  unfold settle
  cases decision.outcome with
  | allow => simp
  | prompt =>
    rcases result : state.park req window with ⟨parked, _ | _⟩ <;>
    have kept := state.acts_park req window <;>
    rw [result] at kept <;>
    simpa using kept
  | deny => dsimp only; split <;> simp
  | defer => dsimp only; split <;> simp

theorem deferOutcome_allow {world : World} {req : Request} {window : Window}
    {rule : String} {answer : Option DeferAnswer} {agent : Agent}
    (hasAgent : world.agents req.agent = some agent) :
    (world.deferOutcome req window rule answer).outcome = .allow ↔
      answer = some .fallthrough ∧ ∃ table, world.table = some table ∧
        ∃ rule ∈ table.rules.allow, rule.matches (World.requestContext agent req window) := by
  unfold World.deferOutcome World.decideAfterDefer World.allowPhase
  rw [hasAgent]
  cases world.table with
  | none => cases answer <;> simp
  | some table =>
    rcases answer with _ | _ | _ | _
    · simp
    · simp
    · simp
    · dsimp only
      simp only [Option.some.injEq, exists_eq_left', true_and]
      rw [← World.requestContext, ← afterDefer_fallthrough ""]
      split_ifs with allowed <;> simp [allowed]

/-- A deferral's answer executes its request exactly when re-validation passes, the
answer falls through and an allow rule matches. -/
theorem mem_acts_resolveDefer {state : Compositor} {k : UInt64}
    {answer : Option DeferAnswer} {act : Executed} :
    act ∈ (state.resolveDefer k answer).acts.drop state.acts.length ↔
      answer = some .fallthrough ∧ ∃ rule agent table,
        state.defers.find? (fun entry => entry.1 = k) = some (k, act.request, rule) ∧
        state.world.agents act.request.agent = some agent ∧
        state.world.table = some table ∧
        state.world.revalidate act.request = .ok act.window ∧
        ∃ rule ∈ table.rules.allow,
          rule.matches (World.requestContext agent act.request act.window) := by
  unfold resolveDefer
  cases found : state.defers.find? fun entry => entry.1 = k with
  | none => simp
  | some entry =>
    obtain ⟨entryKey, req, rule⟩ := entry
    obtain rfl : entryKey = k := by simpa using List.find?_some found
    dsimp only
    cases hasAgent : state.world.agents req.agent with
    | none =>
      refine iff_of_false (by simp) ?_
      rintro ⟨-, _, _, _, same, principal, -⟩
      cases same
      cases hasAgent.symm.trans principal
    | some agent =>
      dsimp only
      cases revalidated : state.world.revalidate req with
      | error refused =>
        refine iff_of_false (by simp) ?_
        rintro ⟨-, _, _, _, same, -, -, passes, -⟩
        cases same
        cases revalidated.symm.trans passes
      | ok window =>
        simp only [acts_settle, List.drop_left, deferOutcome_allow hasAgent]
        constructor
        · intro member
          split at member
          · rename_i falls
            rcases falls with ⟨falls, table, inForce, allowed⟩
            cases List.mem_singleton.mp member
            exact ⟨falls, rule, agent, table, rfl, hasAgent, inForce, revalidated,
              allowed⟩
          · cases member
        · rintro ⟨falls, _, _, table, same, principal, inForce, passes, allowed⟩
          cases same
          cases hasAgent.symm.trans principal
          cases revalidated.symm.trans passes
          rw [if_pos ⟨falls, table, inForce, allowed⟩]
          exact List.mem_singleton.mpr rfl

/-- A prompt's answer executes its request exactly when the human lets it proceed,
re-validation passes and the target's class has not risen. -/
theorem mem_acts_drain {state : Compositor} {resolved : Resolved} {act : Executed} :
    act ∈ (state.drain resolved).acts.drop state.acts.length ↔
      resolved.req.toNat < 2 ^ 32 ∧ (∃ mint, resolved.verdict = .proceed mint) ∧
      ∃ askedClass agent,
        state.prompts.find? (fun entry =>
            entry.1 = key resolved.agent resolved.req.toUInt32) =
          some (key resolved.agent resolved.req.toUInt32, act.request, askedClass) ∧
        state.world.agents act.request.agent = some agent ∧
        state.world.revalidate act.request = .ok act.window ∧
        act.window.class.rank ≤ askedClass.rank := by
  unfold drain
  split
  · rename_i large
    exact iff_of_false (by simp) fun executed => absurd executed.1 (by omega)
  rename_i small
  dsimp only
  cases found : state.prompts.find? fun entry =>
      entry.1 = key resolved.agent resolved.req.toUInt32 with
  | none => simp
  | some entry =>
    obtain ⟨entryKey, req, askedClass⟩ := entry
    obtain rfl : entryKey = key resolved.agent resolved.req.toUInt32 := by
      simpa using List.find?_some found
    cases verdict : resolved.verdict with
    | proceed mint =>
      dsimp only
      cases hasAgent : state.world.agents req.agent with
      | none =>
        refine iff_of_false (by simp) ?_
        rintro ⟨-, -, _, _, same, principal, -⟩
        cases same
        cases hasAgent.symm.trans principal
      | some agent =>
        dsimp only
        cases revalidated : state.world.revalidate req with
        | error refused =>
          refine iff_of_false (by simp) ?_
          rintro ⟨-, -, _, _, same, -, passes, -⟩
          cases same
          cases revalidated.symm.trans passes
        | ok window =>
          dsimp only
          split
          · rename_i risen
            refine iff_of_false (by simp) ?_
            rintro ⟨-, -, _, _, same, -, passes, kept⟩
            cases same
            cases revalidated.symm.trans passes
            exact absurd kept (Nat.not_le.mpr risen)
          · rename_i kept
            rw [acts_executeAndReply, List.drop_left]
            constructor
            · intro member
              cases List.mem_singleton.mp member
              exact ⟨by omega, ⟨mint, rfl⟩, askedClass, agent, rfl, hasAgent,
                revalidated, Nat.not_lt.mp kept⟩
            · rintro ⟨-, -, _, _, same, -, passes, -⟩
              cases same
              cases revalidated.symm.trans passes
              exact List.mem_singleton.mpr rfl
    | denied => simp
    | deniedAndPause => simp
    | timedOut => simp
    | withdrawn => simp

theorem decide_eq_check {world : World} {agent : Agent} {table : Table} {req : Request}
    {window : Window} (hasAgent : world.agents req.agent = some agent)
    (inForce : world.table = some table) :
    world.decide req.agent req.act.capability req.provenanceEmpty window =
      check table (World.requestContext agent req window) := by
  rw [World.decide, hasAgent, inForce]
  rfl

/-- An answer stays within the table in force exactly when it is safe in the world
it arrives in. -/
theorem neverOutlives_iff_answerSafe (state : Compositor) (answer : Answer) :
    state.NeverOutlives answer ↔ state.AnswerSafe answer := by
  cases answer with
  | deferred k answer =>
    constructor
    · intro stays req rule found falls agent table window hasAgent inForce revalidated
        allowed objects
      have executed : ⟨req, window⟩ ∈
          (state.handle (.deferred k answer)).acts.drop state.acts.length :=
        mem_acts_resolveDefer.mpr ⟨falls, rule, agent, table, found, hasAgent, inForce,
          revalidated, allowed⟩
      have notDenied := stays _ executed
      rw [decide_eq_check hasAgent inForce] at notDenied
      exact notDenied (check_eq_deny_iff.mpr (.inl objects))
    · intro safe act executed
      rcases mem_acts_resolveDefer.mp executed with
        ⟨falls, rule, agent, table, found, hasAgent, inForce, revalidated, allowed⟩
      have silent := safe _ _ found falls agent table _ hasAgent inForce revalidated allowed
      rw [decide_eq_check hasAgent inForce, Ne, check_eq_deny_iff, not_or, not_not]
      rcases allowed with ⟨allowRule, member, hits⟩
      exact ⟨silent, allowRule, List.mem_append_right _ member, hits⟩
  | prompted resolved =>
    constructor
    · rintro stays req askedClass small found proceeds agent window hasAgent revalidated
        kept
      have executed : ⟨req, window⟩ ∈
          (state.handle (.prompted resolved)).acts.drop state.acts.length :=
        mem_acts_drain.mpr ⟨small, proceeds, askedClass, agent, found, hasAgent,
          revalidated, kept⟩
      have notDenied := stays _ executed
      cases inForce : state.world.table with
      | none =>
        rw [World.decide, hasAgent, inForce] at notDenied
        exact absurd rfl notDenied
      | some table =>
        rw [decide_eq_check hasAgent inForce, Ne, check_eq_deny_iff, not_or,
          not_not] at notDenied
        exact ⟨table, rfl, notDenied⟩
    · intro safe act executed
      rcases mem_acts_drain.mp executed with
        ⟨small, proceeds, askedClass, agent, found, hasAgent, revalidated, kept⟩
      rcases safe _ _ small found proceeds agent _ hasAgent revalidated kept with
        ⟨table, inForce, silent, matched⟩
      rw [decide_eq_check hasAgent inForce, Ne, check_eq_deny_iff, not_or, not_not]
      exact ⟨silent, matched⟩

end Compositor

end Answers

section Counterexample

local instance : RegexEngine := wordEngine

def shell : Window := ⟨1, "foot", "shell", .«private», .standard, false, 1⟩

/-- One agent with one window in reach, under `table`. -/
def oneWindow (table : Table) : World where
  table := some table
  keyPinned := true
  paused := fun _ => false
  agents := fun _ => some ⟨"agent:test", []⟩
  actView := fun _ _ => some fun _ => true
  windows := [shell]
  covers := fun _ _ _ => true
  focusedWindow := fun _ => some shell
  auditOpen := true
  execute := fun _ _ _ => .ok ""
  consume := fun _ _ _ => .error .batchExhausted
  timerFails := false

/-- A rule that matches every request on a window. -/
def always (id : String) : CompiledRule := ⟨id, [.appIrreversibleCapable false], []⟩

def deferring : Table :=
  { Table.empty with version := 1, rules := ⟨[], [], [always "ask"], [always "allow"]⟩ }

/-- The table in force when the answer arrives. -/
def denying : Table :=
  { Table.empty with version := 2, rules := ⟨[always "deny"], [], [], [always "allow"]⟩ }

def focusShell : Request := ⟨7, 1, .focus 1, true, 0, 0⟩

/-- A request deferred under one table is executed on a fallthrough although a deny
rule of the table then in force matches it. -/
theorem fallthrough_outlives_policy :
    ¬∀ (state : Compositor) (req : Request) (moved : World) (answer : Answer),
      { (state.submit req).1 with world := moved }.NeverOutlives answer := by
  intro never
  have stays := never ⟨oneWindow deferring, [], [], [], [], [], []⟩ focusShell
    (oneWindow denying) (.deferred (key 7 1) (some .fallthrough)) ⟨focusShell, shell⟩
    (List.mem_singleton.mpr rfl)
  exact stays rfl

end Counterexample

end EclipseOS.Abyss
