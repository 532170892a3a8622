import EclipseOS.Abyss.Semantic.Node

/-! # The semantic tree model

What a client's requests edit, and what a commit publishes of it. -/

namespace EclipseOS.Abyss.Semantic

open PolicyEval

abbrev Nodes := Finmap fun _ : UInt32 => Node

abbrev Secs := Finmap fun _ : UInt32 => Sec

def updateAt (id : UInt32) (update : Node → Node) (nodes : Nodes) : Nodes :=
  match nodes.lookup id with
  | some node => nodes.insert id (update node)
  | none => nodes

theorem lookup_updateAt (id other : UInt32) (update : Node → Node) (nodes : Nodes) :
    (updateAt id update nodes).lookup other =
      if other = id then (nodes.lookup id).map update else nodes.lookup other := by
  unfold updateAt
  cases found : nodes.lookup id with
  | none =>
    by_cases same : other = id
    · rw [if_pos same, same, found]
      rfl
    · rw [if_neg same]
  | some node =>
    by_cases same : other = id
    · rw [if_pos same, same, Finmap.lookup_insert]
      rfl
    · rw [if_neg same, Finmap.lookup_insert_of_ne _ same]

structure Model where
  nodes : Nodes
  root : UInt32
  sec : Secs
  /-- The raise-only table overflowed: every node reads as secret. -/
  tainted : Bool
  /-- A secret node was removed less than the grace ago. -/
  ghostUntil : Option Instant
  dirtyStructural : Bool
  dirtyValue : Bool
  warned : Bool
  generation : UInt64
  valueRev : UInt64

/-- One request: a refusal carries the model it leaves behind. -/
abbrev Edit (α : Type) := EStateM Violation Model α

namespace Model

def new : Model := ⟨∅, 0, ∅, false, none, false, false, false, 0, 0⟩

def len (model : Model) : Nat := model.nodes.keys.card

def isEmpty (model : Model) : Bool := model.nodes.keys = ∅

def contains (model : Model) (id : UInt32) : Bool := (model.nodes.lookup id).isSome

/-- Whether requests have arrived since the last commit. -/
def dirty (model : Model) : Bool := model.dirtyStructural || model.dirtyValue

/-- `nodes.get(&id).map_or(0, |n| n.parent)`. -/
def parentOr0 (model : Model) (id : UInt32) : UInt32 :=
  (model.nodes.lookup id).elim 0 (·.parent)

/-- Ancestors of an id, counting itself, up to `fuel`. -/
def countUp (model : Model) : (fuel : Nat) → UInt32 → Nat
  | 0, _ => 0
  | fuel + 1, id => if id = 0 then 0 else model.countUp fuel (model.parentOr0 id) + 1

/-- Ancestors of `id`, counting itself, capped at one past `maxDepth`. -/
def depthOf (model : Model) (id : UInt32) : Nat := model.countUp (maxDepth + 1) id

/-- Whether this node's text must never be kept. -/
def password (model : Model) (id : UInt32) : Bool :=
  (model.sec.lookup id).any (·.password) ||
    (model.nodes.lookup id).any (·.role = rolePassword)

end Model

/-! ## Edits -/

def markStructural : Edit Unit := modify fun model => { model with dirtyStructural := true }

def markValue : Edit Unit := modify fun model => { model with dirtyValue := true }

/-- `self.node_mut(id)?`, read. -/
def nodeAt (id : UInt32) : Edit Node := do
  match (← get).nodes.lookup id with
  | some node => return node
  | none => throw .invalidNode

/-- `self.node_mut(id)?`, written through. -/
def updateNode (id : UInt32) (update : Node → Node) : Edit Unit := do
  let _ ← nodeAt id
  modify fun model => { model with nodes := updateAt id update model.nodes }

/-- Writes the raise-only record of `id`, created on first raise. A full table
taints the surface instead; the answer is whether there was a record. -/
def secRaise (id : UInt32) (raise : Sec → Sec) : Edit Bool := do
  let model ← get
  match model.sec.lookup id with
  | some sec =>
    set { model with sec := model.sec.insert id (raise sec) }
    return true
  | none =>
    if secCap ≤ model.sec.keys.card then
      set { model with tainted := true }
      return false
    else
      set { model with sec := model.sec.insert id (raise Sec.new) }
      return true

def setRoot (id : UInt32) : Edit Unit := do
  let model ← get
  if id = 0 then
    throw .invalidNode
  else if model.root = id then
    return ()
  else if model.root ≠ 0 ∨ model.contains id then
    throw .alreadyExists
  else
    set { model with
      nodes := model.nodes.insert id (Node.new 0), root := id, dirtyStructural := true }

def withChildren (update : List UInt32 → List UInt32) (node : Node) : Node :=
  { node with children := update node.children }

/-- `siblings.insert(index.min(siblings.len()), id)`. -/
def insertChild (index id : UInt32) (children : List UInt32) : List UInt32 :=
  let place := min index.toNat children.length
  children.take place ++ id :: children.drop place

def addNode (id parent index : UInt32) : Edit Unit := do
  let model ← get
  if id = 0 then
    throw .invalidNode
  else if model.contains id then
    throw .alreadyExists
  else if ¬model.contains parent ∨ maxDepth ≤ model.depthOf parent then
    throw .invalidParent
  else if modelCap ≤ model.len then
    throw .extLimit
  else
    let added := model.nodes.insert id (Node.new parent)
    set { model with
      nodes := updateAt parent (withChildren (insertChild index id)) added
      dirtyStructural := true }

/-- The removal loop: what is left, and whether a removed node was secret. The
stack's top is its head. -/
def removeAll (sec : Secs) (now : Instant) (nodes : Nodes) (hadSecret : Bool)
    (stack : List UInt32) : Nodes × Bool :=
  match stack with
  | [] => (nodes, hadSecret)
  | id :: stack =>
    match _found : nodes.lookup id with
    | some node =>
      removeAll sec now (nodes.erase id)
        (hadSecret || (sec.lookup id).any (·.secretAt now)) (node.children.reverse ++ stack)
    | none => removeAll sec now nodes hadSecret stack
  termination_by (nodes.keys.card, stack.length)
  decreasing_by
    · apply Prod.Lex.left
      rw [Finmap.keys_erase]
      exact Finset.card_erase_lt_of_mem
        (Finmap.mem_keys.mpr (Finmap.mem_of_lookup_eq_some _found))
    · exact Prod.Lex.right _ (Nat.lt_succ_self _)

/-- The node and everything under it. The raise-only record stays, and a secret
node among them holds the surface known secret for the grace. -/
def removeNode (id : UInt32) (now : Instant) : Edit Unit := do
  let parent := (← nodeAt id).parent
  let model ← get
  let (left, hadSecret) := removeAll model.sec now model.nodes false [id]
  let pruned := { model with nodes := left }
  let pruned :=
    if parent = 0 then { pruned with root := 0 }
    else { pruned with nodes := updateAt parent (withChildren (·.filter (· ≠ id))) left }
  set { pruned with
    ghostUntil := if hadSecret || pruned.tainted then some (now + grace) else pruned.ghostUntil
    dirtyStructural := true }

/-- Climbs from `current` at most `fuel` steps: `none` on meeting `id`, otherwise
where the climb stopped, 0 past the root. -/
def Model.climb (model : Model) (id : UInt32) : (fuel : Nat) → UInt32 → Option UInt32
  | 0, current => some current
  | fuel + 1, current =>
    if current = id then none
    else if model.parentOr0 current = 0 then some 0
    else model.climb id fuel (model.parentOr0 current)

def moveNode (id newParent index : UInt32) : Edit Unit := do
  let model ← get
  match model.nodes.lookup id with
  | none => throw .invalidNode
  | some node =>
    if ¬model.contains newParent ∨ id = model.root then
      throw .invalidParent
    else if model.climb id (model.len + 1) newParent ≠ some 0 then
      throw .cycle
    else if maxDepth ≤ model.depthOf newParent then
      throw .invalidParent
    else
      let detached := updateAt node.parent (withChildren (·.filter (· ≠ id))) model.nodes
      let moved := updateAt id (fun node => { node with parent := newParent }) detached
      set { model with
        nodes := updateAt newParent (withChildren (insertChild index id)) moved
        dirtyStructural := true }

/-- A `password` role raises the node to `secret` for good and drops any text it
holds. -/
def setRole (id role : UInt32) : Edit Unit := do
  let role := min role roleUnknown
  updateNode id fun node => { node with role := role }
  if role = rolePassword then
    let _ ← secRaise id fun sec => { sec with password := true, «class» := .secret }
    updateNode id fun node => { node with value := .empty }
  markStructural

def setName (id : UInt32) (name : String) : Edit Unit := do
  updateNode id fun node => { node with name := clean name nameMax false }
  markValue

def setDescription (id : UInt32) (desc : String) : Edit Unit := do
  updateNode id fun node => { node with desc := clean desc descMax true }
  markValue

def setRect (id : UInt32) (x y w h : Int32) : Edit Unit := do
  updateNode id fun node => { node with rect := some ⟨x, y, w, h⟩ }
  markStructural

def stateMask (codes : List UInt32) : UInt32 :=
  (codes.take 256).foldl
    (fun mask code => if code < stateCount then mask ||| 1 <<< code else mask) 0

def setStates (id : UInt32) (codes : List UInt32) : Edit Unit := do
  updateNode id fun node => { node with states := stateMask codes }
  markStructural

/-- `value.clamp(-1, n)`. -/
def clampCursor (n : Nat) (value : Int32) : Int32 := .ofInt (max (-1) (min value.toInt n))

/-- Writes a node's value, or drops it where text must never be kept. -/
def setValue (id : UInt32) (value : Value) : Edit Unit := do
  let discard := (← get).password id
  updateNode id fun node => { node with value := if discard then .empty else value }
  markValue

def setValueText (id : UInt32) (text : String) (cursor selStart selEnd : Int32) : Edit Unit :=
  let text := clean text textMax true
  let n := byteLen text
  setValue id (.text text (clampCursor n cursor) (clampCursor n selStart, clampCursor n selEnd))

def setValueNumber (id : UInt32) (value min max step : Float) : Edit Unit :=
  setValue id (.number value min max step)

def setValueUrl (id : UInt32) (href : String) : Edit Unit :=
  setValue id (.url (clean href urlMax false))

def clearValue (id : UInt32) : Edit Unit := do
  updateNode id fun node => { node with value := .empty }
  markValue

/-- The verbs kept of those offered, in order. -/
def verbSet (verbs : List UInt32) : List UInt32 :=
  (verbs.take (4 * maxActions)).foldl (fun set verb =>
    if ¬(verbFixed ≤ verb ∧ verb < verbCustomBase) ∧ verb ∉ set ∧ set.length < maxActions then
      set ++ [verb]
    else set) []

/-- The full set. Codes between the fixed verbs and the custom base are ignored. -/
def setActions (id : UInt32) (verbs : List UInt32) : Edit Unit := do
  let set := verbSet verbs
  updateNode id fun node =>
    { node with labels := node.labels.filter (·.1 ∈ set), actions := set }
  markStructural

/-- Writes the first entry of a key, or appends one. -/
def putFirst {α β : Type} [DecidableEq α] (key : α) (value : β) :
    List (α × β) → List (α × β)
  | [] => [(key, value)]
  | entry :: entries =>
    if entry.1 = key then (entry.1, value) :: entries else entry :: putFirst key value entries

/-- A label for a verb the node offers; for any other verb, ignored. -/
def setActionLabel (id verb : UInt32) (label : String) : Edit Unit := do
  let node ← nodeAt id
  if verb ∈ node.actions then
    updateNode id fun node =>
      { node with labels := putFirst verb (clean label labelMax false) node.labels }
    markValue

/-- Raise only. An unknown class counts as `secret`. -/
def setSensitivity (id «class» : UInt32) : Edit Unit := do
  let _ ← nodeAt id
  let want : Class := if «class» = 0 then .public else if «class» = 1 then .private else .secret
  let held := ((← get).sec.lookup id).elim Class.private (·.class)
  if want.rank < held.rank then
    throw .lowerClassification
  else if held.rank < want.rank then
    let _ ← secRaise id fun sec => { sec with «class» := want }
    markStructural

/-! ## Extensions -/

def setCredential (id : UInt32) (value : String) : Edit ExtOutcome := do
  if value = "false" ∨ value = "0" then
    if ((← get).sec.lookup id).any (·.credential) then
      throw .lowerClassification
  else
    if (← secRaise id fun sec => { sec with credential := true }) then
      markStructural
  return .applied

def setIrreversible (id : UInt32) (value : String) (taxonomyKnown : Bool) : Edit ExtOutcome := do
  match ((← get).sec.lookup id).bind (·.irreversible) with
  | some held => if held ≠ value then throw .lowerClassification else return .applied
  | none =>
    if value = "" then
      return .applied
    else if ¬taxonomyKnown then
      modify fun model => { model with warned := true }
      return .dropped
    else
      let _ ← secRaise id fun sec => { sec with irreversible := some value }
      markStructural
      return .applied

/-- Echo off is a raise to `secret`; echo back on is a downgrade, and waits the
grace. -/
def setEcho (id : UInt32) (value : String) (now : Instant) : Edit Unit := do
  if value = "true" ∨ value = "1" then
    let model ← get
    match model.sec.lookup id with
    | none => return ()
    | some sec =>
      if sec.echoOff then
        set { model with
          sec := model.sec.insert id { sec with echoOff := false, holdUntil := some (now + grace) }
          dirtyStructural := true }
  else
    if (← secRaise id fun sec => { sec with echoOff := true, holdUntil := none }) then
      markStructural

def writeExt (id : UInt32) (key value : String) : Edit ExtOutcome := do
  let node ← nodeAt id
  if ¬node.ext.any (·.1 = key) ∧ extKeys ≤ node.ext.length then
    throw .extLimit
  else
    updateNode id fun node => { node with ext := putFirst key value node.ext }
    markValue
    return .applied

/-- `taxonomyKnown` is read only for `irreversible`. -/
def setExt (id : UInt32) (key value : String) (now : Instant) (taxonomyKnown : Bool) :
    Edit ExtOutcome := do
  let _ ← nodeAt id
  let key := stripExt key
  if key = "" ∨ extKeyMax < byteLen key ∨ key.toList.any isControl ∨
      extValueMax < byteLen value then
    throw .extLimit
  let value := clean value extValueMax false
  if key = "clamped" then
    return .applied
  else if key = "credential" then
    setCredential id value
  else if key = "irreversible" then
    setIrreversible id value taxonomyKnown
  else
    if key = "echo" then
      setEcho id value now
    writeExt id key value

end EclipseOS.Abyss.Semantic
