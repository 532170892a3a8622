import EclipseOS.PolicyEval.Table
import Mathlib.Tactic.Linarith

/-! # Policy source to enforcement table

Compiles the `rule`, `classify`, `trust` and `defaults` nodes of the policy
files. Exactly the predicates the compositor can answer are compiled; anything
else is an error, never a skipped line. -/

namespace EclipseOS.Policyd

open Foundation PolicyEval

/-! ## KDL -/

/-- A KDL value. A float that is not a number or not finite has no `number`. -/
inductive KdlValue where
  | string (text : String)
  | integer (value : Int)
  | float (number : Option Rat)
  | bool (value : Bool)
  | null
  deriving DecidableEq

namespace KdlValue

def asString : KdlValue → Option String
  | string text => some text
  | _ => none

def asBool : KdlValue → Option Bool
  | bool value => some value
  | _ => none

/-- `as_float().or_else(|| as_integer().map(|i| i as f64))`. -/
def asNumber : KdlValue → Option Rat
  | float number => number
  | integer value => some value
  | _ => none

end KdlValue

/-- An argument, or a property when it has a name. -/
structure KdlEntry where
  name : Option String
  value : KdlValue
  deriving DecidableEq

structure KdlNode where
  name : String
  entries : List KdlEntry
  children : Option (List KdlNode)

/-- The KDL parser: a document's nodes, or what it says is wrong. -/
class KdlParser where
  parse : (text : String) → Except String (List KdlNode)

def strings (node : KdlNode) : List String :=
  (node.entries.filter (·.name.isNone)).filterMap (·.value.asString)

def hasProps (node : KdlNode) : Bool := node.entries.any (·.name.isSome)

def prop (node : KdlNode) (name : String) : Option KdlValue :=
  (node.entries.find? (·.name = some name)).map (·.value)

/-- The value of the only entry, if there is one and it is an argument. -/
def onlyArgument (node : KdlNode) : Option KdlValue :=
  match node.entries with
  | [⟨none, value⟩] => some value
  | _ => none

/-! ## Compiling -/

/-- One compile error, with where it was found. -/
structure CompileError where
  file : String
  rule : Option String
  what : String
  deriving DecidableEq

/-- A compiled table, and what parsed but is not enforced yet. -/
structure Compiled [RegexEngine] where
  rules : Phases
  classifier : Classifier
  notEnforced : List String
  deriving DecidableEq

inductive Phase where
  | deny
  | prompt
  | defer
  | allow
  deriving DecidableEq

def okOr {α : Type} (what : String) : Option α → Except String α
  | some value => .ok value
  | none => .error what

/-- One or more string arguments and no property. -/
def words (what : String) (node : KdlNode) : Except String (List String) :=
  if strings node = [] ∨ hasProps node then
    .error s!"{what}`{node.name}` takes one or more string arguments"
  else
    .ok (strings node)

def globs (what : String) (node : KdlNode) : Except String (List Glob) := do
  return (← words what node).map Glob.new

def rateOf (number : Rat) (range : 0 ≤ number ∧ number ≤ 1) : Rate where
  milli := (number * 1000 + 1 / 2).floor.toNat
  atMostOne := by
    have below : (number * 1000 + 1 / 2).floor ≤ 1000 := by
      apply Int.lt_add_one_iff.mp
      rw [Rat.floor_lt_iff]
      push_cast
      linarith [range.2]
    omega

section Compile

variable [RegexEngine]

def compileMatcher (what : String) (node : KdlNode) : Except String Matcher :=
  match node.name with
  | "app_id" => .appId <$> globs s!"{what}: " node
  | "url" => .url <$> globs s!"{what}: " node
  | "output" => .output <$> globs s!"{what}: " node
  | "launched_by" => .launchedBy <$> globs s!"{what}: " node
  | "title" =>
    match strings node, hasProps node with
    | [source], false =>
      .title <$> okOr s!"{what}: the title regex does not compile" (Regex.build source)
    | _, _ => .error s!"{what}: `title` takes one regex argument"
  | "xwayland" =>
    .xwayland <$> okOr s!"{what}: `xwayland` takes #true or #false"
      ((onlyArgument node).bind (·.asBool))
  | "node_role" | "node_name" =>
    .error (s!"{what}: `{node.name}` needs the semantic tree (COMP-09), which is not " ++
      "built; the rule is refused rather than compiled without its raise")
  | "workspace" | "pid_exe_hash" | "path" =>
    .error s!"{what}: `{node.name}` is not supported by this build's classifier"
  | other => .error s!"{what}: unknown matcher `{other}`"

def compileMatchers (node : KdlNode) (what : String) : Except String (List Matcher) :=
  match node.children with
  | none => .error s!"{what} needs a matcher block"
  | some children => do
    let matchers ← children.mapM (compileMatcher what)
    if matchers = [] then
      throw s!"{what} needs at least one matcher"
    else
      return matchers

/-- `{class:?}`. -/
def classDebug : PolicyEval.Class → String
  | .«public» => "Public"
  | .«private» => "Private"
  | .secret => "Secret"

/-- `{trust:?}`. -/
def trustDebug : Trust → String
  | .untrusted => "Untrusted"
  | .standard => "Standard"
  | .trusted => "Trusted"
  | .human => "Human"

def compileClassify (node : KdlNode) : Except String ClassifyRule :=
  match strings node with
  | [text] => do
    let found ← okOr s!"classify: unknown class `{text}`" (classOf text)
    return ⟨found, ← compileMatchers node s!"classify {classDebug found}"⟩
  | _ => .error "classify takes one class: classify \"secret\" \x7b ... \x7d"

def compileTrust (node : KdlNode) : Except String TrustRule :=
  match strings node with
  | [text] => do
    -- `human` is the human seat's alone.
    let trust ← okOr s!"trust: `{text}` is not untrusted, standard or trusted"
      ((trustOf text).filter (· ≠ .human))
    return ⟨trust, ← compileMatchers node s!"trust {trustDebug trust}"⟩
  | _ => .error "trust takes one level: trust \"trusted\" \x7b ... \x7d"

def deferOnly : List String :=
  ["time", "rate_gt", "grant_scope", "target_handle", "provenance_min_trust",
    "provenance_head", "provenance_age_gt", "provenance_mismatch", "egress_bytes_gt",
    "secret_bound_host_mismatch", "node_credential", "terminal_cmd"]

def oneRegex (node : KdlNode) : Except String Regex :=
  match strings node, hasProps node with
  | [source], false =>
    okOr s!"`{node.name}`: the regex does not compile" (Regex.build source)
  | _, _ => .error s!"`{node.name}` takes one regex argument"

/-- The number of `node_confidence_lt`. -/
def oneRate (node : KdlNode) : Except String Rate :=
  match (onlyArgument node).bind (·.asNumber) with
  | some number =>
    if range : 0 ≤ number ∧ number ≤ 1 then
      .ok (rateOf number range)
    else
      .error "node_confidence_lt takes one number from 0 to 1"
  | none => .error "node_confidence_lt takes one number from 0 to 1"

/-- The trust or the source of `provenance_contains`. -/
def provenance (node : KdlNode) : Except String Pred :=
  let takesOne := "provenance_contains takes one of trust=\"…\" or source=\"…\""
  if node.entries.length ≠ 1 then
    .error takesOne
  else
    match prop node "trust", prop node "source" with
    | some trust, none =>
      .provenanceContainsTrust <$>
        okOr "provenance_contains trust= must be a trust level"
          (trust.asString.bind trustOf)
    | none, some source =>
      .provenanceContainsSource <$>
        okOr "provenance_contains source= must be a string" source.asString
    | _, _ => .error takesOne

def compilePred (node : KdlNode) : Except String Pred :=
  match node.name with
  | "capability" => .capability <$> globs "" node
  | "target_class" => do
    return .targetClass (← (← words "" node).mapM fun text =>
      okOr s!"unknown class `{text}`" (classOf text))
  | "target_app_id" => .targetAppId <$> globs "" node
  | "title" => .title <$> oneRegex node
  | "node_role" => .nodeRole <$> words "" node
  | "node_name" => .nodeName <$> oneRegex node
  | "node_source" => .nodeSource <$> words "" node
  | "node_confidence_lt" => .nodeConfidenceLt <$> oneRate node
  | "irreversible" => .irreversible <$> globs "" node
  | "url" => .url <$> globs "" node
  | "principal" => .principal <$> globs "" node
  | "principal_profile" => .principalProfile <$> words "" node
  | "app_trust" => do
    return .appTrust (← (← words "" node).mapM fun text =>
      okOr s!"unknown trust `{text}`" (trustOf text))
  | "app_irreversible_capable" =>
    .appIrreversibleCapable <$>
      okOr "app_irreversible_capable takes #true or #false"
        ((onlyArgument node).bind (·.asBool))
  | "provenance_contains" => provenance node
  | "provenance_absent" =>
    if node.entries ≠ [] then
      .error "provenance_absent takes no arguments"
    else
      .ok .provenanceAbsent
  | other =>
    if other ∈ deferOnly then
      .error (s!"`{other}` is not supported in this build's enforcement table; the rule " ++
        "is refused rather than compiled without it")
    else
      .error s!"unknown predicate `{other}`"

/-- One `grant_has` of an `unless` block. -/
def compileGrantHas (node : KdlNode) : Except String Unless :=
  if node.name ≠ "grant_has" then
    .error s!"unless may only test grant facts (grant_has), not `{node.name}`"
  else do
    let unattended ← match prop node "unattended" with
      | none => .ok false
      | some value => okOr "unattended must be #true or #false" value.asBool
    match strings node, decide (node.entries.length ≤ 2) with
    | [capability], true => return ⟨capability, unattended⟩
    | _, _ => throw "grant_has takes one capability and an optional unattended="

def compileUnless (node : KdlNode) : Except String (List Unless) :=
  match node.children with
  | none => .error "unless takes a block: unless \x7b grant_has \"<cap>\" \x7d"
  | some children => children.mapM compileGrantHas

/-- One child of a rule, onto the predicates and `unless` clauses so far. -/
def compileClause (clauses : List Pred × List Unless) (node : KdlNode) :
    Except String (List Pred × List Unless) :=
  if node.name = "unless" then do
    return (clauses.1, clauses.2 ++ (← compileUnless node))
  else do
    return (clauses.1 ++ [← compilePred node], clauses.2)

def phaseOf (text : String) : Option Phase :=
  match text with
  | "deny" => some .deny
  | "prompt" => some .prompt
  | "defer" => some .defer
  | "allow" => some .allow
  | _ => none

/-- `node.entries()` without the properties. -/
def arguments (node : KdlNode) : List KdlValue :=
  (node.entries.filter (·.name.isNone)).map (·.value)

def compileRule (node : KdlNode) :
    Except (Option String × String) (Phase × CompiledRule) :=
  match ((arguments node).head?.bind (·.asString)).filter (· ≠ "") with
  | none => .error (none, "a rule needs an id: rule \"<id>\" <phase> \x7b ... \x7d")
  | some id =>
    match arguments node, hasProps node with
    | [_, phase], false =>
      match phase.asString.bind phaseOf, node.children with
      | none, _ => .error (some id, "phase must be deny, prompt, defer or allow")
      | some _, none => .error (some id, "a rule needs a predicate block")
      | some phase, some children =>
        match children.foldlM compileClause ([], []) with
        | .error what => .error (some id, what)
        | .ok ([], _) =>
          .error (some id, "a rule needs at least one predicate; write " ++
            "capability \"*\" to match everything")
        | .ok (preds, clauses) => .ok (phase, ⟨id, preds, clauses⟩)
    | _, _ => .error (some id, "a rule takes exactly an id and a phase")

end Compile

section Compiled

variable [RegexEngine]

def rulesOf (rules : Phases) : Phase → List CompiledRule
  | .deny => rules.deny
  | .prompt => rules.prompt
  | .defer => rules.defer
  | .allow => rules.allow

/-- `c.rules.<phase>.push(rule)`. -/
def push (rules : Phases) (rule : CompiledRule) : Phase → Phases
  | .deny => { rules with deny := rules.deny ++ [rule] }
  | .prompt => { rules with prompt := rules.prompt ++ [rule] }
  | .defer => { rules with defer := rules.defer ++ [rule] }
  | .allow => { rules with allow := rules.allow ++ [rule] }

def isDuplicate (rules : Phases) (rule : CompiledRule) : Bool :=
  [rules.deny, rules.prompt, rules.defer, rules.allow].any fun phase =>
    phase.any (·.id = rule.id)

/-- One child of a `defaults` node. -/
def compileDefault (file : String) (compiled : Compiled) (node : KdlNode) :
    Except CompileError Compiled :=
  if node.name = "sensitivity" then
    match strings node with
    | ["private"] =>
      .ok { compiled with classifier := { compiled.classifier with default := .«private» } }
    | ["secret"] =>
      .ok { compiled with classifier := { compiled.classifier with default := .secret } }
    | _ => .error ⟨file, none, "defaults sensitivity must be \"private\" or \"secret\"; " ++
        "only a classify \"public\" rule makes something public"⟩
  else
    .ok { compiled with notEnforced := compiled.notEnforced ++
      [s!"{file}: defaults `{node.name}` parsed, not yet enforced"] }

/-- One top-level node of `file`. -/
def compileNode (file : String) (compiled : Compiled) (node : KdlNode) :
    Except CompileError Compiled :=
  match node.name with
  | "rule" =>
    match compileRule node with
    | .error (rule, what) => .error ⟨file, rule, what⟩
    | .ok (phase, rule) =>
      if isDuplicate compiled.rules rule then
        .error ⟨file, some rule.id, "duplicate rule id"⟩
      else
        .ok { compiled with rules := push compiled.rules rule phase }
  | "classify" =>
    match compileClassify node with
    | .error what => .error ⟨file, none, what⟩
    | .ok rule => .ok { compiled with classifier :=
        { compiled.classifier with classify := compiled.classifier.classify ++ [rule] } }
  | "trust" =>
    match compileTrust node with
    | .error what => .error ⟨file, none, what⟩
    | .ok rule => .ok { compiled with classifier :=
        { compiled.classifier with trust := compiled.classifier.trust ++ [rule] } }
  | "defaults" => (node.children.getD []).foldlM (compileDefault file) compiled
  | "irreversible" | "profile" | "dedupe_exclude" | "trusted_endpoint" =>
    .ok { compiled with notEnforced := compiled.notEnforced ++
      [s!"{file}: `{node.name}` parsed, not yet enforced"] }
  | other => .error ⟨file, none, s!"unknown node `{other}`"⟩

def compileFile [KdlParser] (compiled : Compiled) (file : String × String) :
    Except CompileError Compiled :=
  match KdlParser.parse file.2 with
  | .error reason => .error ⟨file.1, none, s!"not KDL: {reason}"⟩
  | .ok nodes => nodes.foldlM (compileNode file.1) compiled

/-- Compiles `files`, in order. -/
def compile [KdlParser] (files : List (String × String)) : Except CompileError Compiled :=
  files.foldlM compileFile ⟨Phases.empty, Classifier.private, []⟩

/-- Stamps a table at `version`. -/
def table (compiled : Compiled) (version : UInt64) : Table :=
  ⟨version, compiled.rules, compiled.classifier⟩

end Compiled

/-! ## Pushing -/

/-- The largest link message either side takes. -/
def maxMessage : Nat := 256 * 1024

/-- The bytes a recompile signs and pushes, when they fit a link message. -/
def pushed [RegexEngine] (table : Table) : Option Bytes :=
  if table.encode.length + 128 > maxMessage then none else some table.encode

end EclipseOS.Policyd
