import EclipseOS.PolicyEval.Classify

/-! # The enforcement check

One request against one compiled table: hard rules, then deny, prompt, defer
and allow, and a denial when nothing matches. -/

namespace EclipseOS.PolicyEval

open Foundation

inductive Outcome where
  | allow
  | deny
  | prompt
  | defer
  deriving DecidableEq

/-- An outcome and the id of the rule that produced it. -/
structure Decision where
  outcome : Outcome
  rule : String
  deriving DecidableEq

def noMatch : String := "default-deny"

def hardSystemTaxonomy : String := "hard:system-taxonomy"

def hardPolicyEdit : String := "hard:policy-edit"

def deferredTimeout : String := "deferred_timeout"

/-- One grant fact an `unless` clause can test. -/
structure GrantFact where
  capability : String
  unattended : Bool
  deriving DecidableEq

/-- The node the request acts on. The confidence is the number its `f32` is. -/
structure NodeFacts where
  role : String
  name : String
  source : String
  confidence : Rat
  deriving DecidableEq

/-- The request's provenance tag, summarised. -/
structure ProvenanceFacts where
  empty : Bool
  trusts : Trust → Bool
  sources : List String

structure RequestCtx where
  principal : String
  profile : String
  grants : List GrantFact
  capability : String
  appId : Option String
  title : Option String
  «class» : Class
  appTrust : Trust
  appIrreversibleCapable : Bool
  node : Option NodeFacts
  url : Option String
  irreversible : Option String
  provenance : ProvenanceFacts

/-- A rate between zero and one, in the thousandths the table carries. -/
structure Rate where
  milli : Nat
  atMostOne : milli ≤ 1000
  deriving DecidableEq

def Rate.value (rate : Rate) : Rat := rate.milli / 1000

/-- One compiled predicate. Every predicate is a conjunct; a list inside one is
a disjunction. -/
inductive Pred [RegexEngine] where
  | capability (globs : List Glob)
  | targetClass (classes : List Class)
  | targetAppId (globs : List Glob)
  | title (regex : Regex)
  | nodeRole (roles : List String)
  | nodeName (regex : Regex)
  | nodeSource (sources : List String)
  | nodeConfidenceLt (rate : Rate)
  | irreversible (globs : List Glob)
  | url (globs : List Glob)
  | principal (globs : List Glob)
  | principalProfile (profiles : List String)
  | appTrust (trusts : List Trust)
  | appIrreversibleCapable (value : Bool)
  | provenanceContainsTrust (trust : Trust)
  | provenanceContainsSource (source : String)
  | provenanceAbsent
  deriving DecidableEq

/-- `unless grant_has "<cap>" [unattended=true]`. -/
structure Unless where
  capability : String
  unattended : Bool
  deriving DecidableEq

structure CompiledRule [RegexEngine] where
  id : String
  preds : List Pred
  «unless» : List Unless
  deriving DecidableEq

structure Phases [RegexEngine] where
  deny : List CompiledRule
  prompt : List CompiledRule
  defer : List CompiledRule
  allow : List CompiledRule
  deriving DecidableEq

/-- The enforcement table the compositor evaluates in-process. -/
structure Table [RegexEngine] where
  version : UInt64
  rules : Phases
  classifier : Classifier
  deriving DecidableEq

/-- What `policyd` may answer a deferral with. -/
inductive DeferAnswer where
  | deny
  | prompt
  | fallthrough
  deriving DecidableEq

variable [RegexEngine]

namespace Phases

/-- `Phases::default()`. -/
def empty : Phases := ⟨[], [], [], []⟩

end Phases

namespace Table

/-- `Table::default()`. -/
def empty : Table := ⟨0, Phases.empty, Classifier.private⟩

end Table

namespace Pred

def «matches» (ctx : RequestCtx) : Pred → Bool
  | capability globs => anyGlob globs ctx.capability
  | targetClass classes => ctx.class ∈ classes
  | targetAppId globs => ctx.appId.any (anyGlob globs)
  | title regex => ctx.title.any regex.isMatch
  | nodeRole roles => ctx.node.any fun node => node.role ∈ roles
  | nodeName regex => ctx.node.any fun node => regex.isMatch node.name
  | nodeSource sources => ctx.node.any fun node => node.source ∈ sources
  | nodeConfidenceLt rate => ctx.node.any fun node => node.confidence < rate.value
  | irreversible globs => ctx.irreversible.any (anyGlob globs)
  | url globs => ctx.url.any (anyGlob globs)
  | principal globs => anyGlob globs ctx.principal
  | principalProfile profiles => ctx.profile ∈ profiles
  | appTrust trusts => ctx.appTrust ∈ trusts
  | appIrreversibleCapable value => ctx.appIrreversibleCapable = value
  | provenanceContainsTrust trust => ctx.provenance.trusts trust
  | provenanceContainsSource source => source ∈ ctx.provenance.sources
  | provenanceAbsent => ctx.provenance.empty

end Pred

def Unless.holds (clause : Unless) (ctx : RequestCtx) : Bool :=
  ctx.grants.any fun grant =>
    grant.capability = clause.capability ∧ (¬clause.unattended ∨ grant.unattended)

def CompiledRule.matches (rule : CompiledRule) (ctx : RequestCtx) : Bool :=
  rule.preds.all (·.matches ctx) ∧ ¬rule.«unless».any (·.holds ctx)

def first (rules : List CompiledRule) (ctx : RequestCtx) : Option String :=
  (rules.find? (·.matches ctx)).map (·.id)

def startsWith (lead text : String) : Bool :=
  (Cbor.utf8 lead).isPrefixOf (Cbor.utf8 text)

def isSystem (principal : String) : Bool := startsWith "system:" principal

/-- The hard rules that a request alone can decide. -/
def hard (ctx : RequestCtx) : Option Decision :=
  if isSystem ctx.principal then
    none
  else if ctx.irreversible.any fun id => id = "system.policy" ∨ id = "system.firmware" then
    some ⟨.deny, hardSystemTaxonomy⟩
  else if ctx.capability = "policy.edit" then
    some ⟨.deny, hardPolicyEdit⟩
  else
    none

def Phases.inOrder (phases : Phases) : List (List CompiledRule × Outcome) :=
  [(phases.deny, .deny), (phases.prompt, .prompt), (phases.defer, .defer),
    (phases.allow, .allow)]

/-- The first match of the first phase that has one. -/
def firstOfPhases (ctx : RequestCtx) : List (List CompiledRule × Outcome) → Decision
  | [] => ⟨.deny, noMatch⟩
  | (rules, outcome) :: phases =>
    match first rules ctx with
    | some rule => ⟨outcome, rule⟩
    | none => firstOfPhases ctx phases

def check (table : Table) (ctx : RequestCtx) : Decision :=
  match hard ctx with
  | some decision => decision
  | none => firstOfPhases ctx table.rules.inOrder

/-- Resolves a `check` that returned `defer` from `rule`. `none` is a timeout. -/
def afterDefer (table : Table) (ctx : RequestCtx) (rule : String) :
    Option DeferAnswer → Decision
  | none => ⟨.deny, deferredTimeout⟩
  | some .deny => ⟨.deny, rule⟩
  | some .prompt => ⟨.prompt, rule⟩
  | some .fallthrough =>
    match first table.rules.allow ctx with
    | some rule => ⟨.allow, rule⟩
    | none => ⟨.deny, noMatch⟩

end EclipseOS.PolicyEval
