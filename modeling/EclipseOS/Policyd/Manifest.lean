import EclipseOS.Policyd.Policy
import EclipseOS.Policyd.Tasks.ScopeLines
import Mathlib.Data.List.Destutter

/-! # Package manifests

Reads and validates `manifest.kdl`: what an install review shows, and what a task
of the package may be granted. -/

namespace EclipseOS.Policyd

open Foundation PolicyEval

/-- Owner ceiling on `max_depth`. -/
def maxDepthCeiling : UInt32 := 3

/-- The default deadline, when a manifest gives none. -/
def defaultDeadlineMs : UInt64 := 2 * 3600000

/-- Manifest string fields longer than this are refused, not truncated. -/
def maxString : Nat := 4096

structure Requested where
  name : String
  /-- `kind:value` clauses, sorted. -/
  scopes : List String
  because : String
  deriving DecidableEq

def Requested.line (requested : Requested) : String := grantLine requested.name requested.scopes

inductive PackageOrigin where
  | owner
  | system
  deriving DecidableEq

structure Inference where
  backend : String
  model : String
  deriving DecidableEq

structure Manifest where
  id : String
  name : String
  version : String
  publisher : String
  entrypoint : List String
  defaultDeadlineMs : UInt64
  maxDepth : UInt32
  capabilities : List Requested
  resumable : Option Bool
  /-- Sandbox declarations, kind and value. -/
  sandbox : List (String × String)
  inference : Option Inference
  deriving DecidableEq

/-- The owner's own packages are resumable unless they say otherwise. -/
def Manifest.isResumable (manifest : Manifest) : Bool :=
  manifest.resumable.getD (manifest.publisher = "local")

/-- Why a manifest is refused at install, with no review offered. -/
inductive Refusal where
  | unreadable
  | syntaxError
  | field (name : String)
  | unknownNode (name : String)
  | noBecause (name : String)
  | unscoped (name : String)
  | wildcardScope (name : String)
  | badScope (name : String)
  | depthOverCeiling
  | entrypointOutsideTree
  | secretExpose
  | publisher
  | unregisteredSchema
  deriving DecidableEq

def Refusal.text : Refusal → String
  | unreadable => "manifest_unreadable"
  | syntaxError => "manifest_syntax"
  | field name => "manifest_field:" ++ name
  | unknownNode _ => "manifest_unknown_node"
  | noBecause _ => "capability_without_because"
  | unscoped _ => "capability_unscoped"
  | wildcardScope _ => "wildcard_scope"
  | badScope _ => "bad_scope"
  | depthOverCeiling => "max_depth_over_ceiling"
  | entrypointOutsideTree => "entrypoint_outside_package"
  | secretExpose => "secret_expose_not_local"
  | publisher => "publisher_not_allowed"
  | unregisteredSchema => "unregistered_channel_schema"

/-! ## Fields -/

def fieldOr {α : Type} (what : String) : Option α → Except Refusal α
  | some value => .ok value
  | none => .error (.field what)

def KdlValue.asInteger : KdlValue → Option Int
  | integer value => some value
  | _ => none

/-- The nodes of a node's children block, if it has one. -/
def KdlNode.block (node : KdlNode) : List KdlNode := node.children.getD []

def fieldString (value : KdlValue) (what : String) : Except Refusal String := do
  let text ← fieldOr what value.asString
  if maxString < text.utf8ByteSize then .error (.field what) else .ok text

def one (node : KdlNode) (what : String) : Except Refusal KdlValue :=
  fieldOr what (onlyArgument node)

def oneString (node : KdlNode) (what : String) : Except Refusal String := do
  fieldString (← one node what) what

/-- Both fields are required, and nothing else may be in the block. -/
def readInference (node : KdlNode) : Except Refusal Inference := do
  let (backend, model) ← node.block.foldlM (fun (backend, model) field =>
    match field.name with
    | "backend" =>
      if backend.isSome then .error (.field "inference")
      else do return (some (← oneString field "inference"), model)
    | "model" =>
      if model.isSome then .error (.field "inference")
      else do return (backend, some (← oneString field "inference"))
    | other => .error (.unknownNode ("inference." ++ other))) ((none, none) : Option String × Option String)
  let backend ← fieldOr "inference.backend" backend
  let model ← fieldOr "inference.model" model
  if ¬(backend = "api" ∨ backend = "claude-code") then
    .error (.field "inference.backend")
  else if ¬(model ≠ "" ∧ model.utf8ByteSize ≤ 64 ∧
      model.toList.all fun char => char.isAlphanum || char = '-' || char = '.') then
    .error (.field "inference.model")
  else
    .ok ⟨backend, model⟩

def durationMs (text : String) : Option UInt64 := do
  let number := text.toList.takeWhile Char.isDigit
  let n ← parseU64 (String.ofList number)
  let ms ← match String.ofList (text.toList.dropWhile Char.isDigit) with
    | "s" => some 1000
    | "m" => some 60000
    | "h" => some 3600000
    | _ => none
  if n.toNat * ms < 2 ^ 64 then some (UInt64.ofNat (n.toNat * ms)) else none

def idOk (id : String) : Bool :=
  id ≠ "" ∧ id.utf8ByteSize ≤ 64 ∧
    (id.toList.all fun char => char.isLower || char.isDigit || char = '-' || char = '.') ∧
    id.toList.head? ≠ some '.'

/-! ## Capabilities -/

section Capabilities

variable [RegexEngine]

/-- One clause of a capability's scope block. -/
def readClause (capability : String) (clause : KdlNode) : Except Refusal String := do
  let value ← oneString clause "scope"
  if value.toList.all fun char => char = '*' || char = '?' then
    .error (.wildcardScope capability)
  else
    let text := clause.name ++ ":" ++ value
    if (Scope.parse text).isOk = false ∨ text.toList.any isWhitespace then
      .error (.badScope capability)
    else
      .ok text

/-- `sort` and `dedup`. -/
def sortedDedup (scopes : List String) : List String :=
  (scopes.mergeSort fun left right => left ≤ right).destutter (· ≠ ·)

/-- Whether the bare word `scope` stands on a capability's line, alone. -/
def hasScopeWord (node : KdlNode) : Except Refusal Bool :=
  match node.entries with
  | [] => .ok false
  | [entry] =>
    if entry.name = none ∧ entry.value.asString = some "scope" then .ok true
    else .error (.badScope node.name)
  | _ => .error (.badScope node.name)

/-- A capability node, before its justification. -/
def readCapability (node : KdlNode) : Except Refusal Requested :=
  if ¬node.name.toList.all isNameChar ∨ node.name = "" then
    .error (.unknownNode node.name)
  else do
    let hasScope ← hasScopeWord node
    if hasScope = false ∨ node.block = [] then
      .error (.unscoped node.name)
    else
      let scopes ← node.block.mapM (readClause node.name)
      .ok ⟨node.name, sortedDedup scopes, ""⟩

/-- The capabilities of a block, one of them waiting for its `because`. -/
def readCapabilities (waiting : Option Requested) : List KdlNode → Except Refusal (List Requested)
  | [] =>
    match waiting with
    | some requested => .error (.noBecause requested.name)
    | none => .ok []
  | node :: nodes =>
    if node.name = "because" then
      match waiting with
      | none => .error (.noBecause "")
      | some requested => do
        let because ← oneString node "because"
        return { requested with because } :: (← readCapabilities none nodes)
    else
      match waiting with
      | some requested => .error (.noBecause requested.name)
      | none => do readCapabilities (some (← readCapability node)) nodes

end Capabilities

/-! ## The manifest -/

section Manifest

variable [RegexEngine]

def Manifest.blank : Manifest :=
  ⟨"", "", "", "", [], Policyd.defaultDeadlineMs, 0, [], none, [], none⟩

def readTask (manifest : Manifest) (node : KdlNode) : Except Refusal Manifest :=
  match node.name with
  | "default_deadline" => do
    let text ← oneString node "default_deadline"
    let deadline ← fieldOr "default_deadline" (durationMs text)
    return { manifest with defaultDeadlineMs := deadline }
  | "max_depth" => do
    let depth ← fieldOr "max_depth" ((← one node "max_depth").asInteger)
    if 0 ≤ depth ∧ depth < 2 ^ 32 then
      return { manifest with maxDepth := UInt32.ofNat depth.toNat }
    else
      .error (.field "max_depth")
  | other => .error (.unknownNode other)

def readNode (manifest : Manifest) (node : KdlNode) : Except Refusal Manifest :=
  match node.name with
  | "id" => do return { manifest with id := ← oneString node "id" }
  | "name" => do return { manifest with name := ← oneString node "name" }
  | "version" => do return { manifest with version := ← oneString node "version" }
  | "publisher" => do return { manifest with publisher := ← oneString node "publisher" }
  | "entrypoint" =>
    if node.entries.any (·.name.isSome) ∨ node.children.isSome then
      .error (.field "entrypoint")
    else do
      return { manifest with
        entrypoint := ← node.entries.mapM fun entry => fieldString entry.value "entrypoint" }
  | "runtime" | "sdk" => do
    let _ ← oneString node "runtime"
    return manifest
  | "resumable" => do
    let resumable ← fieldOr "resumable" (← one node "resumable").asBool
    return { manifest with resumable := some resumable }
  | "task" => node.block.foldlM readTask manifest
  | "capabilities" => do
    return { manifest with capabilities := ← readCapabilities none node.block }
  | "sandbox" => do
    let declared ← node.block.mapM fun kind => do return (kind.name, ← oneString kind "sandbox")
    return { manifest with sandbox := manifest.sandbox ++ declared }
  | "channels" => if node.block = [] then .ok manifest else .error .unregisteredSchema
  | "inference" => do return { manifest with inference := some (← readInference node) }
  | "integrity" => .ok manifest
  | other => .error (.unknownNode other)

def readNodes (seen : List String) (manifest : Manifest) :
    List KdlNode → Except Refusal Manifest
  | [] => .ok manifest
  | node :: nodes =>
    if node.name ∈ seen then
      .error (.unknownNode node.name)
    else do
      readNodes (node.name :: seen) (← readNode manifest node) nodes

def Manifest.complete (manifest : Manifest) : Except Refusal Manifest :=
  if manifest.id = "" then .error (.field "id")
  else if manifest.name = "" then .error (.field "name")
  else if manifest.version = "" then .error (.field "version")
  else if manifest.publisher = "" then .error (.field "publisher")
  else if idOk manifest.id = false then .error (.field "id")
  else if idOk manifest.version = false then .error (.field "version")
  else if manifest.entrypoint = [] then .error (.field "entrypoint")
  else .ok manifest

def parseManifest [KdlParser] (text : String) : Except Refusal Manifest :=
  match KdlParser.parse text with
  | .ok [agent] =>
    if agent.name ≠ "agent" ∨ agent.entries ≠ [] then
      .error .syntaxError
    else
      match agent.children with
      | none => .error .syntaxError
      | some body => do (← readNodes [] .blank body).complete
  | _ => .error .syntaxError

end Manifest

/-! ## Where a package comes from -/

abbrev Path := List String

/-- What `Path::components` makes of a text: neither rooted nor climbing. -/
def staysInside (path : String) : Bool :=
  path.toList.head? ≠ some '/' ∧
    (path.toList.splitOn '/').all fun segment => segment ≠ ['.', '.']

/-- The rules that depend on where the package came from. -/
def validate (manifest : Manifest) (origin : PackageOrigin) : Except Refusal Unit :=
  if manifest.publisher ≠ (match origin with | .owner => "local" | .system => "eclipse") then
    .error .publisher
  else if maxDepthCeiling < manifest.maxDepth then
    .error .depthOverCeiling
  else if origin ≠ .owner ∧ manifest.capabilities.any (·.name = "secret.expose") then
    .error .secretExpose
  else
    match manifest.sandbox.find? fun (kind, value) =>
        kind = "net.egress" ∧ value.toList.all fun char => char = '*' || char = '?' with
    | some (kind, _) => .error (.wildcardScope kind)
    | none =>
      let first := manifest.entrypoint.headD ""
      if '/' ∈ first.toList ∧ ¬staysInside first then .error .entrypointOutsideTree else .ok ()

/-- The files at one moment: which directory a path names, and a package's manifest. -/
structure Files where
  canonicalize : String → Option Path
  manifest : Path → Option Bytes

/-- Which root a directory is a `<id>/<version>` package under. -/
def originOf (files : Files) (dir : Path) (roots : List (String × PackageOrigin)) :
    Option PackageOrigin :=
  roots.findSome? fun (root, origin) => do
    let root ← files.canonicalize root
    if root <+: dir ∧ dir.length = root.length + 2 then some origin else none

/-- Reads and validates `<dir>/manifest.kdl`. -/
def load [RegexEngine] [KdlParser] (files : Files) (dir : Path) (origin : PackageOrigin) :
    Except Refusal Manifest :=
  match (files.manifest dir).bind Cbor.fromUtf8 with
  | none => .error .unreadable
  | some text => do
    let manifest ← parseManifest text
    validate manifest origin
    -- the directory is `<id>/<version>`
    if dir.getLast? ≠ some manifest.version then
      .error (.field "version")
    else if dir.dropLast.getLast? ≠ some manifest.id then
      .error (.field "id")
    else
      .ok manifest

/-! ## What a manifest asks for can be said on a line -/

def Requested.capability (requested : Requested) : Capability :=
  ⟨requested.name, requested.scopes, none⟩

theorem lineOf_capability (requested : Requested) : lineOf requested.capability = requested.line := rfl

theorem mem_sortedDedup {scopes : List String} {scope : String}
    (member : scope ∈ sortedDedup scopes) : scope ∈ scopes :=
  List.mem_mergeSort.mp ((List.destutter_sublist _ _).subset member)

theorem sortedDedup_ne_nil {scopes : List String} (some : scopes ≠ []) : sortedDedup scopes ≠ [] := by
  intro none
  have sorted := (List.destutter_eq_nil _).mp none
  have length : (scopes.mergeSort fun left right => decide (left ≤ right)).length =
      scopes.length := List.length_mergeSort scopes
  rw [sorted] at length
  exact some (List.length_eq_zero_iff.mp length.symm)

theorem complete_ok {manifest after : Manifest} (complete : manifest.complete = .ok after) :
    after = manifest := by
  unfold Manifest.complete at complete
  split_ifs at complete
  cases complete
  rfl

section Spelled

variable [RegexEngine]

theorem readClause_ok {capability text : String} {clause : KdlNode}
    (read : readClause capability clause = .ok text) :
    IsWord text ∧ (Scope.parse text).isOk = true := by
  rcases ok_of_bind_ok read with ⟨value, -, rest⟩
  split at rest
  · cases rest
  · dsimp only at rest
    split at rest
    · cases rest
    · rename_i good
      cases rest
      rw [not_or, Bool.not_eq_false, Bool.not_eq_true, List.any_eq_false] at good
      exact ⟨⟨by simp, fun char member => Bool.not_eq_true _ ▸ good.2 char member⟩, good.1⟩

theorem spelled_of_readCapability {node : KdlNode} {requested : Requested}
    (read : readCapability node = .ok requested) : Spelled requested.capability := by
  rw [readCapability] at read
  split at read
  · cases read
  · rename_i named
    rw [not_or, not_not] at named
    rcases ok_of_bind_ok read with ⟨hasScope, -, rest⟩
    split at rest
    · cases rest
    · rename_i block
      rcases ok_of_bind_ok rest with ⟨scopes, clauses, result⟩
      cases result
      have each := forall₂_of_mapM clauses
      have good : ∀ scope ∈ scopes, IsWord scope ∧ (Scope.parse scope).isOk = true := by
        refine (forall₂_forall_iff each fun _ scope _ read => ?_).mp fun _ _ => trivial
        exact iff_of_true trivial (readClause_ok read)
      have some : scopes ≠ [] := by
        rintro rfl
        have length := each.length_eq
        exact (not_or.mp block).2 (List.length_eq_zero_iff.mp length)
      exact ⟨named.2, List.all_eq_true.mp named.1, sortedDedup_ne_nil some,
        fun scope member => (good scope (mem_sortedDedup member)).1,
        fun scope member => (good scope (mem_sortedDedup member)).2, rfl⟩

theorem spelled_of_readCapabilities {waiting : Option Requested} {nodes : List KdlNode}
    {found : List Requested} (read : readCapabilities waiting nodes = .ok found)
    (first : ∀ requested ∈ waiting, Spelled requested.capability) :
    ∀ requested ∈ found, Spelled requested.capability := by
  induction nodes generalizing waiting found with
  | nil =>
    cases waiting <;> cases read
    exact nofun
  | cons node nodes induction =>
    rw [readCapabilities.eq_def] at read
    dsimp only at read
    split at read
    · cases waiting with
      | none => cases read
      | some requested =>
        rcases ok_of_bind_ok read with ⟨because, -, rest⟩
        rcases ok_of_bind_ok rest with ⟨others, readOthers, result⟩
        cases result
        intro other member
        rcases List.mem_cons.mp member with rfl | member
        · exact first requested rfl
        · exact induction readOthers nofun other member
    · cases waiting with
      | some requested => cases read
      | none =>
        rcases ok_of_bind_ok read with ⟨requested, readOne, rest⟩
        refine induction rest ?_
        rintro _ ⟨⟩
        exact spelled_of_readCapability readOne

def Manifest.Sayable (manifest : Manifest) : Prop :=
  ∀ requested ∈ manifest.capabilities, Spelled requested.capability

theorem readTask_sayable {manifest after : Manifest} {node : KdlNode}
    (read : readTask manifest node = .ok after) (sayable : manifest.Sayable) : after.Sayable := by
  unfold readTask at read
  split at read
  · rcases ok_of_bind_ok read with ⟨text, -, rest⟩
    rcases ok_of_bind_ok rest with ⟨deadline, -, result⟩
    cases result
    exact sayable
  · rcases ok_of_bind_ok read with ⟨value, -, rest⟩
    rcases ok_of_bind_ok rest with ⟨depth, -, result⟩
    split at result <;> cases result
    exact sayable
  · cases read

theorem readNode_sayable {manifest after : Manifest} {node : KdlNode}
    (read : readNode manifest node = .ok after) (sayable : manifest.Sayable) : after.Sayable := by
  -- a node that sets another field
  have other {α : Type} {value : Except Refusal α} {set : α → Manifest}
      (read : (value >>= fun value => .ok (set value)) = .ok after)
      (keeps : ∀ value, (set value).capabilities = manifest.capabilities) : after.Sayable := by
    rcases ok_of_bind_ok read with ⟨value, -, result⟩
    cases result
    rw [Manifest.Sayable, keeps]
    exact sayable
  unfold readNode at read
  split at read
  case h_1 => exact other read fun _ => rfl
  case h_2 => exact other read fun _ => rfl
  case h_3 => exact other read fun _ => rfl
  case h_4 => exact other read fun _ => rfl
  case h_5 =>
    split at read
    · cases read
    · exact other read fun _ => rfl
  case h_6 => exact other read fun _ => rfl
  case h_7 => exact other read fun _ => rfl
  case h_8 =>
    rcases ok_of_bind_ok read with ⟨value, -, rest⟩
    exact other rest fun _ => rfl
  case h_9 =>
    exact of_foldlM (fun _ _ _ stepped sayable => readTask_sayable stepped sayable) read sayable
  case h_10 =>
    rcases ok_of_bind_ok read with ⟨found, block, result⟩
    cases result
    exact spelled_of_readCapabilities block nofun
  case h_11 => exact other read fun _ => rfl
  case h_12 =>
    split at read <;> cases read
    exact sayable
  case h_13 => exact other read fun _ => rfl
  case h_14 =>
    cases read
    exact sayable
  case h_15 => cases read

theorem readNodes_sayable {seen : List String} {manifest after : Manifest} {nodes : List KdlNode}
    (read : readNodes seen manifest nodes = .ok after) (sayable : manifest.Sayable) :
    after.Sayable := by
  induction nodes generalizing seen manifest with
  | nil =>
    cases read
    exact sayable
  | cons node nodes induction =>
    rw [readNodes] at read
    split at read
    · cases read
    · rcases ok_of_bind_ok read with ⟨next, readOne, rest⟩
      exact induction rest (readNode_sayable readOne sayable)

theorem parseManifest_sayable [KdlParser] {text : String} {manifest : Manifest}
    (parsed : parseManifest text = .ok manifest) : manifest.Sayable := by
  unfold parseManifest at parsed
  split at parsed
  · split at parsed
    · cases parsed
    · split at parsed
      · cases parsed
      · rcases ok_of_bind_ok parsed with ⟨read, nodes, complete⟩
        rw [complete_ok complete]
        exact readNodes_sayable nodes nofun
  · cases parsed

end Spelled

end EclipseOS.Policyd
