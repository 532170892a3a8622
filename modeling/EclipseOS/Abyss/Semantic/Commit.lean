import EclipseOS.Abyss.Semantic.Model

/-! # Committing a semantic tree

What a commit publishes of a model, the model's own structure check, and runs of
calls on it. A loop that follows links is `none` where it would not return. -/

namespace EclipseOS.Abyss.Semantic

open PolicyEval

section Walks

variable (model : Model) (now : Instant)

/-- Preorder from a stack of ids with the class each inherits, top first. A class
is the maximum of a node's own and its ancestors'. -/
def effectiveFrom (stack : List (UInt32 × Class)) : Option (List (UInt32 × Class)) :=
  match stack with
  | [] => some []
  | (id, inherited) :: stack =>
    match model.nodes.lookup id with
    -- `unop%` is plain application, but leaves no source position in the term.
    | none => (unop% effectiveFrom stack :)
    | some node => do
      let own := (model.sec.lookup id).elim Class.private (·.local now)
      let «class» := if model.tainted then .secret else inherited.max own
      let order ← unop% effectiveFrom (node.children.map (·, «class») ++ stack)
      return (id, «class») :: order
  partial_fixpoint

def Model.effective : Option (List (UInt32 × Class)) :=
  effectiveFrom model now [(model.root, .private)]

/-! ## The budget -/

/-- The ids from `id` up to the root. -/
def Model.pathUp (id : UInt32) : Option (List UInt32) :=
  if id = 0 then
    some []
  else do
    let node ← model.nodes.lookup id
    let path ← unop% Model.pathUp node.parent
    return id :: path
  partial_fixpoint

end Walks

/-- The ids the focused node's subtree adds, with `under` counted so far and
`left` more to count. -/
def Model.subtree (model : Model) (focus : UInt32) : (left : Nat) → List UInt32 →
    Option (List UInt32)
  | 0, _ => some []
  | _, [] => some []
  | left + 1, id :: stack => do
    let node ← model.nodes.lookup id
    let kept ← model.subtree focus left (node.children ++ stack)
    return if id = focus then kept else id :: kept

/-- Document order, a node only under a parent that is kept. -/
def Model.fill (model : Model) (kept : Finset UInt32) : List UInt32 → Option (Finset UInt32)
  | [] => some kept
  | id :: order =>
    if nodeBudget ≤ kept.card then
      some kept
    else do
      let parent := (← model.nodes.lookup id).parent
      if id ∉ kept ∧ (parent = 0 ∨ parent ∈ kept) then
        model.fill (insert id kept) order
      else
        model.fill kept order

/-- The first node of the order whose states have the focus bit. -/
def Model.focus (model : Model) : List UInt32 → Option (Option UInt32)
  | [] => some none
  | id :: order => do
    let node ← model.nodes.lookup id
    if node.states &&& stateFocused ≠ 0 then return some id else model.focus order

/-- Which nodes survive the budget: everything if it fits, else the path to the
focused node and its subtree up to half the budget, then document order. -/
def Model.choose (model : Model) (order : List UInt32) : Option (Finset UInt32) := do
  if order.length ≤ nodeBudget then
    return order.toFinset
  match ← model.focus order with
  | none => model.fill ∅ order
  | some focus =>
    let path ← model.pathUp focus
    let under ← model.subtree focus (nodeBudget / 2) [focus]
    model.fill (path.toFinset ∪ under.toFinset) order

/-! ## Commits -/

structure Commit where
  generation : UInt64
  valueRev : UInt64
  structural : Bool
  /-- Truncated, or an extension was dropped. -/
  budgetExceeded : Bool

structure View where
  generation : UInt64
  valueRev : UInt64
  root : UInt32
  nodes : Nodes
  /-- Document order. -/
  order : List UInt32
  sec : Secs
  tainted : Bool
  ghostUntil : Option Instant
  /-- The budget dropped a secret node. -/
  secretDropped : Bool
  complete : Bool
  /-- Roots of the subtrees the budget dropped, in document order. -/
  truncated : List UInt32
  /-- The surface size the rectangles were clamped to. -/
  size : Int32 × Int32

structure Published where
  nodes : Nodes
  ids : List UInt32
  truncated : List UInt32
  secretDropped : Bool

def Node.clampedTo (node : Node) (size : Int32 × Int32) : Node :=
  match node.rect with
  | some rect => { node with rect := some (rect.clamped size).1, clamped := (rect.clamped size).2 }
  | none => node

def Model.publish (model : Model) (size : Int32 × Int32) (kept : Finset UInt32) :
    Published → List (UInt32 × Class) → Option Published
  | done, [] => some done
  | done, (id, «class») :: order =>
    if id ∉ kept then
      model.publish size kept
        { done with secretDropped := done.secretDropped || «class» = .secret } order
    else do
      let node ← model.nodes.lookup id
      let gone := node.children.filter (· ∉ kept)
      let node := { node with children := node.children.filter (· ∈ kept) }
      model.publish size kept
        { done with
          nodes := done.nodes.insert id (node.clampedTo size)
          ids := done.ids ++ [id]
          truncated := done.truncated ++ gone.take (truncatedMax - done.truncated.length) }
        order

/-- Publishes a model whose order is known and complete. -/
def Model.commitOrder (model : Model) (size : Int32 × Int32) (order : List (UInt32 × Class)) :
    Option ((Commit × View) × Model) := do
  let kept ← model.choose (order.map Prod.fst)
  let done ← model.publish size kept ⟨∅, [], [], false⟩ order
  let complete := decide (kept.card = order.length)
  let counted :=
    if model.dirtyStructural then { model with generation := model.generation + 1 }
    else { model with valueRev := model.valueRev + 1 }
  let commit : Commit := ⟨counted.generation, counted.valueRev, model.dirtyStructural,
    !complete || model.warned⟩
  let view : View := ⟨counted.generation, counted.valueRev, model.root, done.nodes, done.ids,
    model.sec, model.tainted, model.ghostUntil, done.secretDropped, complete, done.truncated, size⟩
  return ((commit, view),
    { counted with dirtyStructural := false, dirtyValue := false, warned := false })

/-- Validates and publishes. Nothing is published when nothing changed. -/
def Model.commit (model : Model) (size : Int32 × Int32) (now : Instant) :
    Option (EStateM.Result Violation Model (Option (Commit × View))) :=
  if ¬model.dirty then
    some (.ok none model)
  else if model.root = 0 ∧ ¬model.isEmpty then
    some (.error .invalidNode model)
  else do
    let order ← model.effective now
    if order.length ≠ model.len then
      return .error .cycle model
    else
      let (published, after) ← model.commitOrder size order
      return .ok (some published) after

/-! ## The structure check -/

def checkChild (model : Model) (id child : UInt32) : Except String Unit :=
  match model.nodes.lookup child with
  | none => .error s!"child {child} missing"
  | some node =>
    if node.parent ≠ id then .error s!"child {child} disagrees about its parent" else .ok ()

/-- The check's loop: the ids seen from a stack, top first. -/
def checkFrom (model : Model) (seen : Finset UInt32) (stack : List UInt32) :
    Except String (Finset UInt32) :=
  match stack with
  | [] => .ok seen
  | id :: stack =>
    if _fresh : id ∈ seen then
      .error s!"node {id} reached twice"
    else
      match _found : model.nodes.lookup id with
      | none => .error s!"child {id} missing"
      | some node =>
        match node.children.forM (checkChild model id) with
        | .error error => .error error
        | .ok () => checkFrom model (insert id seen) (node.children.reverse ++ stack)
  termination_by (model.nodes.keys \ seen).card
  decreasing_by
    apply Finset.card_lt_card
    refine (Finset.ssubset_iff_of_subset (Finset.sdiff_subset_sdiff subset_rfl
      (Finset.subset_insert _ _))).mpr ⟨id, ?_, by simp⟩
    exact Finset.mem_sdiff.mpr
      ⟨Finmap.mem_keys.mpr (Finmap.mem_of_lookup_eq_some _found), _fresh⟩

/-- Parent and child links agree, there is one root, nothing is orphaned or listed
twice. -/
def Model.check (model : Model) : Except String Unit :=
  if model.root = 0 then
    if model.isEmpty then .ok () else .error "nodes without a root"
  else
    match model.nodes.lookup model.root with
    | none => .error "root missing"
    | some root =>
      if root.parent ≠ 0 then
        .error "root has a parent"
      else
        match checkFrom model ∅ [model.root] with
        | .error error => .error error
        | .ok seen => if seen.card ≠ model.len then .error "orphaned nodes" else .ok ()

/-! ## Runs -/

inductive Call where
  | setRoot (id : UInt32)
  | addNode (id parent index : UInt32)
  | removeNode (id : UInt32) (now : Instant)
  | moveNode (id newParent index : UInt32)
  | setRole (id role : UInt32)
  | setName (id : UInt32) (name : String)
  | setDescription (id : UInt32) (desc : String)
  | setRect (id : UInt32) (x y w h : Int32)
  | setStates (id : UInt32) (codes : List UInt32)
  | setValueText (id : UInt32) (text : String) (cursor selStart selEnd : Int32)
  | setValueNumber (id : UInt32) (value min max step : Float)
  | setValueUrl (id : UInt32) (href : String)
  | clearValue (id : UInt32)
  | setActions (id : UInt32) (verbs : List UInt32)
  | setActionLabel (id verb : UInt32) (label : String)
  | setSensitivity (id «class» : UInt32)
  | setExt (id : UInt32) (key value : String) (now : Instant) (taxonomyKnown : Bool)
  | commit (size : Int32 × Int32) (now : Instant)

/-- The requests that hang, move or remove a node. -/
def Call.relinks : Call → Bool
  | setRoot .. | addNode .. | removeNode .. | moveNode .. => true
  | _ => false

/-- What a call that was not refused answers. -/
inductive Reply where
  | done
  | ext (outcome : ExtOutcome)
  | committed (published : Option (Commit × View))

def Edit.done (edit : Edit Unit) : Edit Reply := do
  edit
  return .done

/-- A call's request on the model, if it is not a commit. -/
def Call.edit : Call → Option (Edit Reply)
  | setRoot id => some (Semantic.setRoot id).done
  | addNode id parent index => some (Semantic.addNode id parent index).done
  | removeNode id now => some (Semantic.removeNode id now).done
  | moveNode id newParent index => some (Semantic.moveNode id newParent index).done
  | setRole id role => some (Semantic.setRole id role).done
  | setName id name => some (Semantic.setName id name).done
  | setDescription id desc => some (Semantic.setDescription id desc).done
  | setRect id x y w h => some (Semantic.setRect id x y w h).done
  | setStates id codes => some (Semantic.setStates id codes).done
  | setValueText id text cursor selStart selEnd =>
    some (Semantic.setValueText id text cursor selStart selEnd).done
  | setValueNumber id value min max step =>
    some (Semantic.setValueNumber id value min max step).done
  | setValueUrl id href => some (Semantic.setValueUrl id href).done
  | clearValue id => some (Semantic.clearValue id).done
  | setActions id verbs => some (Semantic.setActions id verbs).done
  | setActionLabel id verb label => some (Semantic.setActionLabel id verb label).done
  | setSensitivity id «class» => some (Semantic.setSensitivity id «class»).done
  | setExt id key value now taxonomyKnown =>
    some (.ext <$> Semantic.setExt id key value now taxonomyKnown)
  | commit .. => none

/-- A call on a model, `none` where it does not return. -/
def Call.perform (model : Model) : Call → Option (EStateM.Result Violation Model Reply)
  | commit size now => (model.commit size now).map fun
      | .ok published after => .ok (.committed published) after
      | .error violation after => .error violation after
  | call => call.edit.map (·.run model)

def Call.after (model : Model) (call : Call) : Option Model :=
  (call.perform model).map fun
    | .ok _ after => after
    | .error _ after => after

def Model.run (model : Model) (calls : List Call) : Option Model := calls.foldlM Call.after model

end EclipseOS.Abyss.Semantic
