import EclipseOS.Policyd.PolicyPush

/-! # What relaxes a decision

More rules against fewer, and more grant facts against fewer. -/

namespace EclipseOS.Policyd

open Foundation PolicyEval

section Rules

variable [RegexEngine]

/-! ## Decisions -/

def Matched (rules : List CompiledRule) (ctx : RequestCtx) : Prop :=
  ∃ rule ∈ rules, rule.matches ctx = true

section

variable {rules more : List CompiledRule} {ctx : RequestCtx} {tbl : Table}

theorem first_eq_none : first rules ctx = none ↔ ¬Matched rules ctx := by
  simp [first, Matched]

theorem first_of_matched (found : Matched rules ctx) : ∃ id, first rules ctx = some id := by
  rw [← Option.isSome_iff_exists, ← Option.ne_none_iff_isSome]
  exact fun none => first_eq_none.mp none found

theorem matched_append :
    Matched (rules ++ more) ctx ↔ Matched rules ctx ∨ Matched more ctx := by
  simp only [Matched, List.mem_append, or_and_right, exists_or]

theorem Matched.of_sublist (part : rules.Sublist more) (found : Matched rules ctx) :
    Matched more ctx := by
  rcases found with ⟨rule, member, ok⟩
  exact ⟨rule, part.subset member, ok⟩

omit [RegexEngine] in
theorem hard_deny {decision : Decision} (decided : hard ctx = some decision) :
    decision.outcome = .deny := by
  unfold hard at decided
  split at decided
  · cases decided
  · split at decided
    · cases decided
      rfl
    · split at decided
      · cases decided
        rfl
      · cases decided

/-- A request that neither a hard rule nor a rule stricter than an allow decides. -/
structure Passes (tbl : Table) (ctx : RequestCtx) : Prop where
  hard : hard ctx = none
  deny : ¬Matched tbl.rules.deny ctx
  prompt : ¬Matched tbl.rules.prompt ctx
  defer : ¬Matched tbl.rules.defer ctx

theorem Passes.check_eq (passes : Passes tbl ctx) : check tbl ctx =
    match first tbl.rules.allow ctx with
    | some rule => ⟨.allow, rule⟩
    | none => ⟨.deny, noMatch⟩ := by
  cases allowed : first tbl.rules.allow ctx <;>
    simp only [check, passes.hard, Phases.inOrder, firstOfPhases,
      first_eq_none.mpr passes.deny, first_eq_none.mpr passes.prompt,
      first_eq_none.mpr passes.defer, allowed]

theorem check_of_not_passes (stopped : ¬Passes tbl ctx) (allow : List CompiledRule) :
    check { tbl with rules := { tbl.rules with allow := allow } } ctx = check tbl ctx ∧
      (check tbl ctx).outcome ≠ .allow := by
  unfold check
  cases decided : hard ctx with
  | some decision =>
    have denied := hard_deny decided
    exact ⟨rfl, by simp [denied]⟩
  | none =>
    simp only [Phases.inOrder, firstOfPhases]
    cases deny : first tbl.rules.deny ctx with
    | some => exact ⟨rfl, by simp⟩
    | none =>
      cases prompt : first tbl.rules.prompt ctx with
      | some => exact ⟨rfl, by simp⟩
      | none =>
        cases defer : first tbl.rules.defer ctx with
        | some => exact ⟨rfl, by simp⟩
        | none =>
          exact absurd ⟨decided, first_eq_none.mp deny, first_eq_none.mp prompt,
            first_eq_none.mp defer⟩ stopped

theorem check_allow_iff :
    (check tbl ctx).outcome = .allow ↔ Passes tbl ctx ∧ Matched tbl.rules.allow ctx := by
  by_cases passes : Passes tbl ctx
  · rw [passes.check_eq]
    cases found : first tbl.rules.allow ctx with
    | some rule =>
      have some : Matched tbl.rules.allow ctx := by
        by_contra none
        rw [first_eq_none.mpr none] at found
        cases found
      simp [passes, some]
    | none => simp [first_eq_none.mp found]
  · simp [passes, (check_of_not_passes passes tbl.rules.allow).2]

/-- What is denied: by a rule, or because nothing else answers. -/
theorem check_deny_iff : (check tbl ctx).outcome = .deny ↔
    hard ctx ≠ none ∨ Matched tbl.rules.deny ctx ∨
      (¬Matched tbl.rules.prompt ctx ∧ ¬Matched tbl.rules.defer ctx ∧
        ¬Matched tbl.rules.allow ctx) := by
  unfold check
  cases decided : hard ctx with
  | some decision => simp [hard_deny decided]
  | none =>
    simp only [Phases.inOrder, firstOfPhases]
    simp only [← @first_eq_none _ tbl.rules.prompt _,
      ← @first_eq_none _ tbl.rules.defer _, ← @first_eq_none _ tbl.rules.allow _]
    have denied : Matched tbl.rules.deny ctx ↔ first tbl.rules.deny ctx ≠ none := by
      rw [ne_eq, first_eq_none, not_not]
    rw [denied]
    cases first tbl.rules.deny ctx <;> cases first tbl.rules.prompt ctx <;>
      cases first tbl.rules.defer ctx <;> cases first tbl.rules.allow ctx <;> simp

end

/-! ## Compiled rules -/

/-- The rules of a phase that these nodes are compiled to. -/
def rulesFrom (nodes : List KdlNode) (phase : Phase) : List CompiledRule :=
  nodes.filterMap fun node =>
    if node.name = "rule" then
      match compileRule node with
      | .ok (found, rule) => if found = phase then some rule else none
      | .error _ => none
    else none

section

variable {file : String} {compiled next : Compiled}

theorem rules_compileDefault {nodes : List KdlNode}
    (success : nodes.foldlM (compileDefault file) compiled = .ok next) :
    next.rules = compiled.rules := by
  induction nodes generalizing compiled with
  | nil =>
    cases success
    rfl
  | cons node nodes ih =>
    rw [List.foldlM_cons] at success
    rcases ok_of_bind_ok success with ⟨middle, stepped, rest⟩
    rw [ih rest]
    unfold compileDefault at stepped
    split at stepped
    · split at stepped
      · cases stepped
        rfl
      · cases stepped
        rfl
      · cases stepped
    · cases stepped
      rfl

theorem rules_compileNode {node : KdlNode} (success : compileNode file compiled node = .ok next)
    (phase : Phase) :
    rulesOf next.rules phase = rulesOf compiled.rules phase ++ rulesFrom [node] phase := by
  unfold compileNode at success
  split at success
  · rename_i named
    split at success
    · cases success
    rename_i found rule compiledRule
    split at success
    · cases success
    cases success
    rw [rulesOf_push]
    by_cases same : found = phase
    · simp [rulesFrom, named, compiledRule, same]
    · simp [rulesFrom, named, compiledRule, same]
  · rename_i named
    split at success
    · cases success
    cases success
    simp [rulesFrom, named]
  · rename_i named
    split at success
    · cases success
    cases success
    simp [rulesFrom, named]
  · rename_i named
    rw [rules_compileDefault success]
    simp [rulesFrom, named]
  case h_9 => cases success
  all_goals
    rename_i named
    cases success
    simp [rulesFrom, named]

theorem rules_foldlM_compileNode {nodes : List KdlNode}
    (success : nodes.foldlM (compileNode file) compiled = .ok next) (phase : Phase) :
    rulesOf next.rules phase = rulesOf compiled.rules phase ++ rulesFrom nodes phase := by
  induction nodes generalizing compiled with
  | nil =>
    cases success
    exact (List.append_nil _).symm
  | cons node nodes ih =>
    rw [List.foldlM_cons] at success
    rcases ok_of_bind_ok success with ⟨middle, stepped, rest⟩
    rw [ih rest, rules_compileNode stepped, List.append_assoc, rulesFrom, rulesFrom, rulesFrom,
      ← List.filterMap_append, List.singleton_append]

theorem rules_foldlM_compileFile [KdlParser] {files : List (String × String)}
    (success : files.foldlM compileFile compiled = .ok next) (phase : Phase) :
    rulesOf next.rules phase =
      rulesOf compiled.rules phase ++ rulesFrom (sourceNodes files) phase := by
  induction files generalizing compiled with
  | nil =>
    cases success
    exact (List.append_nil _).symm
  | cons file files ih =>
    rw [List.foldlM_cons] at success
    rcases ok_of_bind_ok success with ⟨middle, stepped, rest⟩
    unfold compileFile at stepped
    split at stepped
    · cases stepped
    · rename_i nodes parsed
      have unfolded : sourceNodes (file :: files) = nodes ++ sourceNodes files := by
        simp [sourceNodes, parsed, Except.toOption]
      rw [ih rest, rules_foldlM_compileNode stepped, unfolded, List.append_assoc, rulesFrom,
        rulesFrom, rulesFrom, ← List.filterMap_append]

theorem rules_compile [KdlParser] {files : List (String × String)}
    (success : compile files = .ok compiled) (phase : Phase) :
    rulesOf compiled.rules phase = rulesFrom (sourceNodes files) phase := by
  rw [rules_foldlM_compileFile success]
  cases phase <;> rfl

theorem rules_compile_append [KdlParser] {system user : List (String × String)}
    {s u c : Compiled} (ofSystem : compile system = .ok s) (ofUser : compile user = .ok u)
    (ofBoth : compile (system ++ user) = .ok c) (phase : Phase) :
    rulesOf c.rules phase = rulesOf s.rules phase ++ rulesOf u.rules phase := by
  rw [rules_compile ofSystem, rules_compile ofUser, rules_compile ofBoth, sourceNodes,
    List.flatMap_append, rulesFrom, List.filterMap_append]
  rfl

end

/-! ## More rules -/

/-- More allow rules, anywhere among the others, only ever answer what nothing matched. -/
theorem check_more_allow {tbl : Table} {allow : List CompiledRule}
    (more : tbl.rules.allow.Sublist allow) (ctx : RequestCtx)
    (changed : (check { tbl with rules := { tbl.rules with allow := allow } } ctx).outcome ≠
      (check tbl ctx).outcome) :
    check tbl ctx = ⟨.deny, noMatch⟩ := by
  by_cases passes : Passes tbl ctx
  · have also : Passes { tbl with rules := { tbl.rules with allow := allow } } ctx :=
      ⟨passes.hard, passes.deny, passes.prompt, passes.defer⟩
    have none : first tbl.rules.allow ctx = none := by
      apply first_eq_none.mpr
      intro found
      apply changed
      rw [check_allow_iff.mpr ⟨passes, found⟩, check_allow_iff.mpr ⟨also, found.of_sublist more⟩]
    rw [passes.check_eq, none]
  · rw [(check_of_not_passes passes allow).1] at changed
    exact absurd rfl changed

/-- User files without an allow rule keep a denial of the system files unless nothing but their
prompt and defer rules answers the request. -/
theorem check_user_files [KdlParser] {system user : List (String × String)} {s u c : Compiled}
    (ofSystem : compile system = .ok s) (ofUser : compile user = .ok u)
    (ofBoth : compile (system ++ user) = .ok c) (noAllow : u.rules.allow = [])
    (version : UInt64) (ctx : RequestCtx) :
    ((check (table s version) ctx).outcome = .deny →
      (check (table c version) ctx).outcome = .deny) ↔
        hard ctx ≠ none ∨ (∃ phase, Matched (rulesOf s.rules phase) ctx) ∨
          Matched u.rules.deny ctx ∨
            ¬Matched u.rules.prompt ctx ∧ ¬Matched u.rules.defer ctx := by
  have joined := rules_compile_append ofSystem ofUser ofBoth
  have deny : c.rules.deny = s.rules.deny ++ u.rules.deny := joined .deny
  have prompt : c.rules.prompt = s.rules.prompt ++ u.rules.prompt := joined .prompt
  have defer : c.rules.defer = s.rules.defer ++ u.rules.defer := joined .defer
  have allow : c.rules.allow = s.rules.allow ++ u.rules.allow := joined .allow
  have phases : (∃ phase, Matched (rulesOf s.rules phase) ctx) ↔
      Matched s.rules.deny ctx ∨ Matched s.rules.prompt ctx ∨ Matched s.rules.defer ctx ∨
        Matched s.rules.allow ctx := by
    constructor
    · rintro ⟨phase, found⟩
      cases phase
      · exact .inl found
      · exact .inr (.inl found)
      · exact .inr (.inr (.inl found))
      · exact .inr (.inr (.inr found))
    · rintro (found | found | found | found)
      · exact ⟨.deny, found⟩
      · exact ⟨.prompt, found⟩
      · exact ⟨.defer, found⟩
      · exact ⟨.allow, found⟩
  rw [check_deny_iff, check_deny_iff, phases]
  simp only [table, deny, prompt, defer, allow, noAllow, List.append_nil, matched_append]
  tauto

def Asks (clause : Unless) (grant : GrantFact) : Prop :=
  grant.capability = clause.capability ∧ (clause.unattended = true → grant.unattended = true)

/-- The request with only some of its grant facts. -/
def withFacts (ctx : RequestCtx) (facts : List GrantFact) : RequestCtx :=
  { ctx with grants := facts }

section

variable {tbl : Table} {ctx : RequestCtx} {kept dropped : List GrantFact} {rule : CompiledRule}

omit [RegexEngine] in
theorem holds_iff {clause : Unless} :
    clause.holds ctx = true ↔ ∃ grant ∈ ctx.grants, Asks clause grant := by
  simp only [Unless.holds, List.any_eq_true, decide_eq_true_eq, Asks]
  apply exists_congr
  intro grant
  cases clause.unattended <;> simp

theorem pred_matches_withFacts (pred : Pred) :
    pred.matches (withFacts ctx kept) = pred.matches ctx := by
  cases pred <;> rfl

theorem matches_iff {facts : List GrantFact} : rule.matches (withFacts ctx facts) = true ↔
    (∀ pred ∈ rule.preds, pred.matches ctx = true) ∧
      ∀ clause ∈ rule.unless, ∀ grant ∈ facts, ¬Asks clause grant := by
  simp only [CompiledRule.matches, decide_eq_true_eq, List.all_eq_true, pred_matches_withFacts,
    List.any_eq_true, holds_iff, not_exists, not_and]
  rfl

theorem matches_of_more (ok : rule.matches (withFacts ctx (kept ++ dropped)) = true) :
    rule.matches (withFacts ctx kept) = true := by
  rw [matches_iff] at ok ⊢
  exact ⟨ok.1, fun clause member grant fact =>
    ok.2 clause member grant (List.mem_append_left _ fact)⟩

theorem Matched.of_more {rules : List CompiledRule}
    (found : Matched rules (withFacts ctx (kept ++ dropped))) :
    Matched rules (withFacts ctx kept) := by
  rcases found with ⟨rule, member, ok⟩
  exact ⟨rule, member, matches_of_more ok⟩

theorem Passes.more (passes : Passes tbl (withFacts ctx kept)) :
    Passes tbl (withFacts ctx (kept ++ dropped)) where
  hard := passes.hard
  deny := fun found => passes.deny found.of_more
  prompt := fun found => passes.prompt found.of_more
  defer := fun found => passes.defer found.of_more

/-- What is allowed on the first of the grant facts is allowed on all of them, unless every
allow rule that matches on the first has an `unless` that a later fact satisfies. -/
theorem check_first_facts (tbl : Table) (ctx : RequestCtx) (kept dropped : List GrantFact) :
    ((check tbl (withFacts ctx kept)).outcome = .allow →
      (check tbl (withFacts ctx (kept ++ dropped))).outcome = .allow) ↔
        ¬Passes tbl (withFacts ctx kept) ∨ ¬Matched tbl.rules.allow (withFacts ctx kept) ∨
          ∃ rule ∈ tbl.rules.allow, rule.matches (withFacts ctx kept) = true ∧
            ∀ clause ∈ rule.unless, ∀ grant ∈ dropped, ¬Asks clause grant := by
  have stays : Matched tbl.rules.allow (withFacts ctx (kept ++ dropped)) ↔
      ∃ rule ∈ tbl.rules.allow, rule.matches (withFacts ctx kept) = true ∧
        ∀ clause ∈ rule.unless, ∀ grant ∈ dropped, ¬Asks clause grant := by
    apply exists_congr
    intro rule
    apply and_congr_right
    intro _
    rw [matches_iff, matches_iff]
    constructor
    · rintro ⟨preds, clauses⟩
      exact ⟨⟨preds, fun clause member grant fact =>
        clauses clause member grant (List.mem_append_left _ fact)⟩,
        fun clause member grant fact =>
          clauses clause member grant (List.mem_append_right _ fact)⟩
    · rintro ⟨⟨preds, first⟩, later⟩
      refine ⟨preds, fun clause member grant fact => ?_⟩
      rcases List.mem_append.mp fact with early | late
      · exact first clause member grant early
      · exact later clause member grant late
  rw [check_allow_iff, check_allow_iff, stays]
  constructor
  · intro allowed
    by_cases passes : Passes tbl (withFacts ctx kept)
    · by_cases found : Matched tbl.rules.allow (withFacts ctx kept)
      · exact .inr (.inr (allowed ⟨passes, found⟩).2)
      · exact .inr (.inl found)
    · exact .inl passes
  · rintro (stopped | none | some) ⟨passes, found⟩
    · exact absurd passes stopped
    · exact absurd found none
    · exact ⟨passes.more, some⟩

end

end Rules

section Sample

local instance : RegexEngine := wordEngine

def promptText : String := "rule \"ask\" prompt \x7b target_class \"private\"; \x7d"

def promptNodes : List KdlNode :=
  [⟨"rule", [argument "ask", argument "prompt"],
    some [⟨"target_class", [argument "private"], none⟩]⟩]

def promptCompiled : Compiled where
  rules := { Phases.empty with prompt := [⟨"ask", [.targetClass [.«private»]], []⟩] }
  classifier := Classifier.private
  notEnforced := []

def nothingCompiled : Compiled := ⟨Phases.empty, Classifier.private, []⟩

def clickCtx (grants : List GrantFact) : RequestCtx where
  principal := "agent:a"
  profile := "operator"
  grants := grants
  capability := "click"
  appId := none
  title := none
  «class» := .«private»
  appTrust := .standard
  appIrreversibleCapable := false
  node := none
  url := none
  irreversible := none
  provenance := ⟨true, fun _ => false, []⟩

section

local instance : KdlParser := parserOf promptText promptNodes

end

def unlessText : String :=
  "rule \"quiet\" allow \x7b target_class \"private\"; " ++
    "unless \x7b grant_has \"capture.output\" \x7d \x7d"

def unlessNodes : List KdlNode :=
  [⟨"rule", [argument "quiet", argument "allow"],
    some [⟨"target_class", [argument "private"], none⟩,
      ⟨"unless", [], some [⟨"grant_has", [argument "capture.output"], none⟩]⟩]⟩]

def unlessCompiled : Compiled where
  rules := { Phases.empty with
    allow := [⟨"quiet", [.targetClass [.«private»]], [⟨"capture.output", false⟩]⟩] }
  classifier := Classifier.private
  notEnforced := []

section

local instance : KdlParser := parserOf unlessText unlessNodes

/-- An allow rule that a grant turns off applies when the grant's fact is the one cut. -/
theorem cut_fact_allows :
    ¬∀ (files : List (String × String)) (c : Compiled), compile files = .ok c →
      ∀ (version : UInt64) (ctx : RequestCtx) (kept dropped : List GrantFact),
        (check (table c version) (withFacts ctx kept)).outcome = .allow →
          (check (table c version) (withFacts ctx (kept ++ dropped))).outcome = .allow := by
  intro always
  have accepted : compile [("policy.kdl", unlessText)] = .ok unlessCompiled := by
    decide +kernel
  have allowed := always [("policy.kdl", unlessText)] unlessCompiled accepted 1 (clickCtx [])
    (List.replicate 32 ⟨"click", false⟩) [⟨"capture.output", false⟩] (by decide +kernel)
  exact absurd allowed (by decide +kernel)

end

end Sample

end EclipseOS.Policyd
