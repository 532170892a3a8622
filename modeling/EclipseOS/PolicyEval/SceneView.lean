import EclipseOS.PolicyEval.Grant
import EclipseOS.PolicyEval.Scope

/-! # Compiled visibility

What one principal may see, compiled from the capability lines of its live
grants. A line that can reach nothing is left out. -/

namespace EclipseOS.PolicyEval

/-- `Ord::min`. -/
def Class.min (left right : Class) : Class := if left.rank ≤ right.rank then left else right

/-- `.min().unwrap_or(default)`. -/
def Class.leastOr (default : Class) : List Class → Class
  | [] => default
  | first :: others => others.foldl Class.min first

structure Line where
  scopes : List Scope
  ceiling : Class
  deriving DecidableEq

section Compile

variable [RegexEngine]

/-- Several class clauses hold at once, so the tightest is the ceiling. -/
def Line.compile (scopes : List String) : Option Line :=
  if scopes = [] then
    none
  else
    match scopes.mapM Scope.parse with
    | .error _ => none
    | .ok scopes =>
      some ⟨scopes, Class.leastOr .public <| scopes.filterMap fun
        | .class ceiling => some ceiling
        | _ => none⟩

end Compile

/-- Every line one capability has in the grants a principal holds. -/
structure SceneView where
  lines : List Line
  deriving DecidableEq

def sceneList : String := "scene.list"

def sceneRead : String := "scene.read"

namespace SceneView

variable [RegexEngine]

def compileFor (cap : String) (grants : List Grant) : SceneView :=
  let lines := ((grants.flatMap fun grant => grant.capabilities).filter (·.name = cap)).filterMap
    fun capability => Line.compile capability.scopes
  ⟨lines⟩

def compile (grants : List Grant) : SceneView := compileFor sceneList grants

end SceneView

end EclipseOS.PolicyEval
