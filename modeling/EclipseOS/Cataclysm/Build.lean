import EclipseOS.Cataclysm.Publisher
import Mathlib.Data.List.Sort

/-! # Batches

The requests that bring what was published to what the publisher holds. -/

namespace EclipseOS.Cataclysm

inductive Role where
  | terminal
  | terminalLine
  | group
  deriving DecidableEq

/-- One `eclipse_semantic_v1` request. -/
inductive Op where
  | setRoot (node : UInt32)
  | addNode (node parent index : UInt32)
  | removeNode (node : UInt32)
  | moveNode (node parent index : UInt32)
  | setRole (node : UInt32) (role : Role)
  | setValueText (node : UInt32) (text : String) (cursor : Int)
  | setExt (node : UInt32) (key value : String)
  | commit
  deriving DecidableEq

/-- The requests so far, and whether a node was added, removed or moved. -/
structure Out where
  ops : List Op
  structural : Bool
  deriving DecidableEq

namespace Out

def empty : Out := ⟨[], false⟩

def append (first second : Out) : Out :=
  ⟨first.ops ++ second.ops, first.structural || second.structural⟩

end Out

def boolStr (b : Bool) : String := if b then "true" else "false"

def slotId (row : Nat) : UInt32 := SLOT_BASE + UInt32.ofNat row

def index (n : Nat) : UInt32 := UInt32.ofNat n

/-- What a step of the build leaves, with its requests after those before it. -/
def andThen (first : Publisher × Out) (next : Publisher → Publisher × Out) : Publisher × Out :=
  let (p, out) := next first.1
  (p, first.2.append out)

/-- The requests that place every child in order. -/
def placeAll (parent : UInt32) (desired : List UInt32) : List Op :=
  desired.zipIdx.map fun (child, i) => .moveNode child parent (index i)

/-- The requests that bring a parent's children to `desired`: none where it only lost
some. -/
def reconcile (parent : UInt32) (desired published : List UInt32) : Out :=
  if desired = published then .empty
  else if desired.isSublist published then .empty
  else ⟨placeAll parent desired, true⟩

namespace Publisher

variable (p : Publisher)

def publishRoot : Publisher × Out :=
  if p.rootPublished then (p, .empty)
  else
    ({ p with rootPublished := true },
      ⟨[.setRoot ROOT_ID, .setRole ROOT_ID .terminal], true⟩)

def scrolledOff (b : Block) : Bool := b.phase = .done ∧ b.last.any (· < p.primary.top)

/-- Blocks that scrolled entirely off the screen go. -/
def dropScrolled : Publisher × Out :=
  ({ p with
      blocks := p.blocks.filter (¬p.scrolledOff ·)
      dead := p.dead ++ p.blocks.filter fun b => p.scrolledOff b ∧ b.published },
    .empty)

/-- A row slot goes out of the list that has it. -/
def dropChild (parent id : UInt32) : Publisher :=
  let without := fun b : Block =>
    if b.id = parent then { b with pubChildren := b.pubChildren.filter (· ≠ id) } else b
  if parent = ROOT_ID then { p with rootChildren := p.rootChildren.filter (· ≠ id) }
  else { p with blocks := p.blocks.map without, dead := p.dead.map without }

/-- So many row slots go, the last one first. -/
def shrinkBy : Nat → Publisher → Publisher × Out
  | 0, p => (p, .empty)
  | n + 1, p =>
    match p.slots.getLast? with
    | none => (p, .empty)
    | some slot =>
      let id := slotId (p.slots.length - 1)
      andThen
        (({ p with slots := p.slots.dropLast }).dropChild slot.pubParent id,
          ⟨[.removeNode id], true⟩)
        (shrinkBy n)

def shrinkSlots : Publisher × Out := shrinkBy (p.slots.length - p.rows) p

def growBy : Nat → Publisher → Publisher × Out
  | 0, p => (p, .empty)
  | n + 1, p =>
    let row := p.slots.length
    let id := slotId row
    andThen
      ({ p with
          rootChildren := p.rootChildren ++ [id]
          slots := p.slots ++ [⟨"", -1, ROOT_ID, false⟩] },
        ⟨[.addNode id ROOT_ID (index p.rootChildren.length), .setRole id .terminalLine,
          .setExt id "row" (toString row), .setExt id "scrollback" "false",
          .setExt id "is_prompt" "false"], true⟩)
      (growBy n)

def growSlots : Publisher × Out := growBy (p.rows - p.slots.length) p

def publishSize : Publisher × Out :=
  let rows : List Op :=
    if p.pubRows ≠ p.rows then [.setExt ROOT_ID "rows" (toString p.rows)] else []
  let cols : List Op :=
    if p.pubCols ≠ p.cols then [.setExt ROOT_ID "cols" (toString p.cols)] else []
  ({ p with pubRows := p.rows, pubCols := p.cols }, ⟨rows ++ cols, false⟩)

/-- The requests for new command blocks, and the root's children with them. -/
def addBlocks : Publisher × Out :=
  let added := p.blocks.filter (¬·.published)
  let ops := added.zipIdx.flatMap fun (b, i) =>
    [Op.addNode b.id ROOT_ID (index (p.rootChildren.length + i)), .setRole b.id .group]
  ({ p with
      rootChildren := p.rootChildren ++ added.map (·.id)
      blocks := p.blocks.map fun b => { b with published := true } },
    ⟨ops, added ≠ []⟩)

def cursorLine : Nat := p.primary.top + p.cursor.1

def owner (row : Nat) : UInt32 :=
  if p.alt then ROOT_ID
  else
    match p.blocks.reverse.find? (·.covers (p.primary.top + row) p.cursorLine) with
    | some b => b.id
    | none => ROOT_ID

/-- Where a root child comes in reading order. -/
structure Key where
  line : Nat
  kind : Nat
  id : UInt32
  deriving DecidableEq

def Key.le (a b : Key) : Bool :=
  a.line < b.line ∨ a.line = b.line ∧ (a.kind < b.kind ∨ a.kind = b.kind ∧ a.id ≤ b.id)

def rootKeys : List Key :=
  p.blocks.map (fun b => ⟨if p.alt then 0 else b.start, 0, b.id⟩) ++
    ((List.range p.rows).filter (p.owner · = ROOT_ID)).map fun row =>
      ⟨if p.alt then 1 else p.primary.top + row, 1, slotId row⟩

/-- Groups and unowned rows in reading order. -/
def rootOrder : List UInt32 := (p.rootKeys.insertionSort (Key.le · ·)).map (·.id)

def rowsOf (id : UInt32) : List UInt32 :=
  ((List.range p.rows).filter (p.owner · = id)).map slotId

def reconcileRoot : Publisher × Out :=
  ({ p with rootChildren := p.rootOrder }, reconcile ROOT_ID p.rootOrder p.rootChildren)

def reconcileBlocks : Publisher × Out :=
  ({ p with blocks := p.blocks.map fun b => { b with pubChildren := p.rowsOf b.id } },
    (p.blocks.map fun b => reconcile b.id (p.rowsOf b.id) b.pubChildren).foldl
      Out.append .empty)

def setParents : Publisher × Out :=
  ({ p with slots := p.slots.zipIdx.map fun (slot, r) => { slot with pubParent := p.owner r } },
    .empty)

def removeDead : Publisher × Out :=
  let dead := p.dead.filter (·.published)
  ({ p with dead := [] }, ⟨dead.map (.removeNode ·.id), dead ≠ []⟩)

def shown (b : Block) : Block :=
  { b with
    pubIsPrompt := some b.isPrompt
    pubCommand := b.pubCommand || b.commandSet
    pubStarted := b.pubStarted || b.startedNs.isSome
    pubEnded := b.pubEnded || b.endedNs.isSome
    pubExit := b.pubExit || b.exitCode.isSome }

def blockOps (b : Block) : List Op :=
  (if b.pubIsPrompt ≠ some b.isPrompt then [.setExt b.id "is_prompt" (boolStr b.isPrompt)]
    else []) ++
  (if b.commandSet ∧ ¬b.pubCommand then
    [.setExt b.id "command" (String.ofList b.command)] ++
      if b.commandTruncated then [.setExt b.id "command_truncated" "true"] else []
    else []) ++
  (match b.startedNs with
    | some t => if b.pubStarted then [] else [.setExt b.id "started" (toString t)]
    | none => []) ++
  (match b.endedNs with
    | some t => if b.pubEnded then [] else [.setExt b.id "ended" (toString t)]
    | none => []) ++
  match b.exitCode with
    | some code => if b.pubExit then [] else [.setExt b.id "exit_code" (toString code)]
    | none => []

def publishBlocks : Publisher × Out :=
  ({ p with blocks := p.blocks.map shown }, ⟨p.blocks.flatMap blockOps, false⟩)

def rowIsPrompt (row : Nat) : Bool :=
  p.owner row ≠ ROOT_ID ∧ p.blocks.any fun b => b.id = p.owner row ∧ b.isPrompt

def rowText (row : Nat) : String := (p.screen.lines[row]?).getD ""

def rowCursor (row : Nat) : Int := if p.cursor.1 = row then p.cursor.2 else -1

def slotOps (slot : Slot) (row : Nat) : List Op :=
  (if slot.pubIsPrompt ≠ p.rowIsPrompt row then
    [.setExt (slotId row) "is_prompt" (boolStr (p.rowIsPrompt row))] else []) ++
  if slot.pubText ≠ p.rowText row ∨ slot.pubCursor ≠ p.rowCursor row then
    [.setValueText (slotId row) (p.rowText row) (p.rowCursor row)] else []

/-- Line diffing: only rows whose text or cursor changed. -/
def publishRows : Publisher × Out :=
  ({ p with
      slots := p.slots.zipIdx.map fun (slot, r) =>
        { slot with
          pubText := p.rowText r, pubCursor := p.rowCursor r, pubIsPrompt := p.rowIsPrompt r } },
    ⟨p.slots.zipIdx.flatMap fun (slot, r) => p.slotOps slot r, false⟩)

def cursorJson (cursor : Nat × Nat) : String :=
  "\x7b\"row\":" ++ toString cursor.1 ++ ",\"col\":" ++ toString cursor.2 ++ "\x7d"

def publishFields : Publisher × Out :=
  let cursor : List Op :=
    if p.pubCursor ≠ some p.cursor then [.setExt ROOT_ID "cursor" (cursorJson p.cursor)] else []
  let alt : List Op :=
    if p.pubAlt ≠ some p.alt then [.setExt ROOT_ID "alt_screen" (boolStr p.alt)] else []
  let echo : List Op :=
    if p.pubEcho ≠ some p.echo then [.setExt ROOT_ID "echo" (boolStr p.echo)] else []
  ({ p with pubCursor := some p.cursor, pubAlt := some p.alt, pubEcho := some p.echo },
    ⟨cursor ++ alt ++ echo, false⟩)

/-- Diffs the model against the last publish. -/
def build : Publisher × Out :=
  let placed := andThen (andThen (andThen p.publishRoot dropScrolled) shrinkSlots) growSlots
  let owned := andThen (andThen (andThen placed publishSize) addBlocks) reconcileRoot
  let moved := andThen (andThen (andThen owned reconcileBlocks) setParents) removeDead
  andThen (andThen (andThen moved publishBlocks) publishRows) publishFields

/-- The echo-off announcement, and nothing else. -/
def buildRaise : Publisher × Out :=
  let (p, out) := p.publishRoot
  ({ p with pubEcho := some false }, out.append ⟨[.setExt ROOT_ID "echo" "false"], false⟩)

/-! A build publishes: what it publishes from stays as it is. -/

/-- The publisher without what it has published, and without its blocks. -/
def source : Publisher :=
  { p with
    blocks := [], dead := [], rootPublished := false, rootChildren := [], slots := []
    pubRows := 0, pubCols := 0, pubCursor := none, pubAlt := none, pubEcho := none }

theorem andThen_source {first : Publisher × Out} {next : Publisher → Publisher × Out}
    {p : Publisher} (same : first.1.source = p.source)
    (keeps : ∀ q, (next q).1.source = q.source) :
    (andThen first next).1.source = p.source :=
  (keeps first.1).trans same

theorem publishRoot_source : p.publishRoot.1.source = p.source := by
  unfold publishRoot
  split <;> rfl

theorem dropChild_source (parent id : UInt32) : (p.dropChild parent id).source = p.source := by
  unfold dropChild
  dsimp only
  split <;> rfl

theorem shrinkBy_source (n : Nat) (p : Publisher) : (shrinkBy n p).1.source = p.source := by
  induction n generalizing p with
  | zero => rfl
  | succ n induction =>
    unfold shrinkBy
    split
    · rfl
    · exact andThen_source (dropChild_source ..) induction

theorem growBy_source (n : Nat) (p : Publisher) : (growBy n p).1.source = p.source := by
  induction n generalizing p with
  | zero => rfl
  | succ n induction =>
    unfold growBy
    exact andThen_source rfl induction

theorem shrinkSlots_source (p : Publisher) : p.shrinkSlots.1.source = p.source :=
  shrinkBy_source _ p

theorem growSlots_source (p : Publisher) : p.growSlots.1.source = p.source :=
  growBy_source _ p

theorem build_source : p.build.1.source = p.source := by
  unfold build
  refine andThen_source (andThen_source (andThen_source ?_ fun q => ?_) fun q => ?_) fun q => ?_
  · refine andThen_source (andThen_source (andThen_source ?_ fun q => ?_) fun q => ?_) fun q => ?_
    · refine andThen_source (andThen_source (andThen_source ?_ fun q => ?_) fun q => ?_)
        fun q => ?_
      · refine andThen_source (andThen_source (andThen_source ?_ fun q => ?_) fun q => ?_)
          fun q => ?_
        · exact p.publishRoot_source
        · rfl
        · exact q.shrinkSlots_source
        · exact q.growSlots_source
      all_goals rfl
    all_goals rfl
  all_goals rfl

theorem buildRaise_source : p.buildRaise.1.source = p.source := p.publishRoot_source

end Publisher

end EclipseOS.Cataclysm
