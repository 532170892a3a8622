import EclipseOS.Cataclysm.Build

/-! # What a build leaves

After a build everything that was published equals what the publisher holds. -/

namespace EclipseOS.Cataclysm

/-- A block without what was published of it. -/
def Block.core (b : Block) : Block :=
  { b with
    published := false, pubIsPrompt := none, pubCommand := false, pubExit := false
    pubStarted := false, pubEnded := false, pubChildren := [] }

namespace Publisher

/-- What a publisher publishes from: its grid, and its blocks. -/
def model (p : Publisher) : Publisher := { p.source with blocks := p.blocks.map Block.core }

/-- What was published is what the publisher holds. -/
structure InStep (p : Publisher) : Prop where
  root : p.rootPublished = true
  rows : p.pubRows = p.rows
  cols : p.pubCols = p.cols
  cursor : p.pubCursor = some p.cursor
  alt : p.pubAlt = some p.alt
  echo : p.pubEcho = some p.echo
  slots : p.slots = (List.range p.rows).map fun row =>
    ⟨p.rowText row, p.rowCursor row, p.owner row, p.rowIsPrompt row⟩
  children : p.rootChildren = p.rootOrder
  blocks : ∀ b ∈ p.blocks, b.published = true ∧ b.pubChildren = p.rowsOf b.id ∧ shown b = b
  onScreen : ∀ b ∈ p.blocks, p.scrolledOff b = false
  dead : p.dead = []

variable (p q : Publisher)

/-! What is published depends on the model alone. -/

theorem owner_model (row : Nat) : p.model.owner row = p.owner row := by
  unfold owner
  have found : p.model.blocks.reverse.find?
      (·.covers (p.model.primary.top + row) p.model.cursorLine) =
        (p.blocks.reverse.find? (·.covers (p.primary.top + row) p.cursorLine)).map
          Block.core := by
    change ((p.blocks.map Block.core).reverse).find? _ = _
    rw [← List.map_reverse, List.find?_map]
    rfl
  rw [found]
  change (if p.alt then ROOT_ID else _) = if p.alt then ROOT_ID else _
  cases p.blocks.reverse.find? (·.covers (p.primary.top + row) p.cursorLine) <;> rfl

theorem rowsOf_model (id : UInt32) : p.model.rowsOf id = p.rowsOf id := by
  unfold rowsOf
  simp only [owner_model]
  rfl

theorem rootOrder_model : p.model.rootOrder = p.rootOrder := by
  have keys : p.model.rootKeys = p.rootKeys := by
    unfold rootKeys
    simp only [owner_model]
    change (p.blocks.map Block.core).map _ ++ _ = _
    rw [List.map_map]
    rfl
  rw [rootOrder, rootOrder, keys]

theorem rowIsPrompt_model (row : Nat) : p.model.rowIsPrompt row = p.rowIsPrompt row := by
  have asked : (p.model.blocks.any fun b => b.id = p.owner row ∧ b.isPrompt) =
      p.blocks.any fun b => b.id = p.owner row ∧ b.isPrompt := by
    change (p.blocks.map Block.core).any _ = _
    rw [List.any_map]
    rfl
  unfold rowIsPrompt
  simp only [owner_model, asked]

theorem onScreen_model :
    (∀ b ∈ p.model.blocks, p.model.scrolledOff b = false) ↔
      ∀ b ∈ p.blocks, p.scrolledOff b = false := by
  change (∀ b ∈ p.blocks.map Block.core, p.model.scrolledOff b = false) ↔ _
  rw [List.forall_mem_map]
  rfl

variable {p q}

theorem owner_congr (same : q.model = p.model) (row : Nat) : q.owner row = p.owner row := by
  rw [← owner_model, same, owner_model]

theorem rowsOf_congr (same : q.model = p.model) (id : UInt32) : q.rowsOf id = p.rowsOf id := by
  rw [← rowsOf_model, same, rowsOf_model]

theorem rootOrder_congr (same : q.model = p.model) : q.rootOrder = p.rootOrder := by
  rw [← rootOrder_model, same, rootOrder_model]

theorem rowIsPrompt_congr (same : q.model = p.model) (row : Nat) :
    q.rowIsPrompt row = p.rowIsPrompt row := by
  rw [← rowIsPrompt_model, same, rowIsPrompt_model]

theorem rows_of_model (same : q.model = p.model) : q.rows = p.rows := by
  have projected := congrArg Publisher.rows same
  exact projected

theorem primary_of_source (same : q.source = p.source) : q.primary = p.primary := by
  have projected := congrArg Publisher.primary same
  exact projected

theorem onScreen_congr (same : q.model = p.model) (here : ∀ b ∈ p.blocks, p.scrolledOff b = false) :
    ∀ b ∈ q.blocks, q.scrolledOff b = false := by
  rw [← onScreen_model, same, onScreen_model]
  exact here

theorem model_of_blocks (same : q.source = p.source)
    (blocks : q.blocks.map Block.core = p.blocks.map Block.core) : q.model = p.model := by
  rw [model, model, same, blocks]

theorem map_core {change : Block → Block} (same : ∀ b, (change b).core = b.core)
    (blocks : List Block) : (blocks.map change).map Block.core = blocks.map Block.core := by
  rw [List.map_map]
  exact List.map_congr_left fun b _ => same b

/-! The phases of a build keep the model, once what scrolled off is gone. -/

theorem dropChild_model (parent id : UInt32) : (p.dropChild parent id).model = p.model := by
  apply model_of_blocks (dropChild_source ..)
  unfold dropChild
  dsimp only
  split
  · rfl
  · apply map_core
    intro b
    by_cases same : b.id = parent <;> simp [Block.core, same]

theorem addBlocks_model (p : Publisher) : p.addBlocks.1.model = p.model := by
  refine model_of_blocks ?_ ?_
  · rfl
  change (p.blocks.map _).map Block.core = _
  apply map_core
  exact fun _ => rfl

theorem reconcileBlocks_model (p : Publisher) : p.reconcileBlocks.1.model = p.model := by
  refine model_of_blocks ?_ ?_
  · rfl
  change (p.blocks.map _).map Block.core = _
  apply map_core
  exact fun _ => rfl

theorem publishBlocks_model (p : Publisher) : p.publishBlocks.1.model = p.model := by
  refine model_of_blocks ?_ ?_
  · rfl
  change (p.blocks.map _).map Block.core = _
  apply map_core
  exact fun _ => rfl

theorem shrinkBy_kept (n : Nat) (p : Publisher) :
    (shrinkBy n p).1.model = p.model ∧ (shrinkBy n p).1.rootPublished = p.rootPublished ∧
      (shrinkBy n p).1.slots.length = p.slots.length - n := by
  induction n generalizing p with
  | zero => exact ⟨rfl, rfl, rfl⟩
  | succ n induction =>
    unfold shrinkBy
    split
    · rename_i none
      rw [List.getLast?_eq_none_iff] at none
      exact ⟨rfl, rfl, by simp [none]⟩
    · rename_i slot _
      rcases induction
          (({ p with slots := p.slots.dropLast }).dropChild slot.pubParent
            (slotId (p.slots.length - 1))) with ⟨model, root, slots⟩
      refine ⟨model.trans (dropChild_model _ _), root.trans ?_, slots.trans ?_⟩
      · unfold dropChild
        dsimp only
        split <;> rfl
      · have kept : (({ p with slots := p.slots.dropLast }).dropChild slot.pubParent
            (slotId (p.slots.length - 1))).slots = p.slots.dropLast := by
          unfold dropChild
          dsimp only
          split <;> rfl
        rw [kept, List.length_dropLast]
        omega

theorem growBy_kept (n : Nat) (p : Publisher) :
    (growBy n p).1.model = p.model ∧ (growBy n p).1.rootPublished = p.rootPublished ∧
      (growBy n p).1.slots.length = p.slots.length + n := by
  induction n generalizing p with
  | zero => exact ⟨rfl, rfl, rfl⟩
  | succ n induction =>
    unfold growBy
    dsimp only [andThen]
    rcases induction { p with
      rootChildren := p.rootChildren ++ [slotId p.slots.length]
      slots := p.slots ++ [⟨"", -1, ROOT_ID, false⟩] } with ⟨model, root, slots⟩
    refine ⟨model, root, slots.trans ?_⟩
    rw [List.length_append, List.length_singleton]
    omega

/-- The part of a build that sets up the root and the row slots. -/
def laidOut (p : Publisher) : Publisher :=
  p.publishRoot.1.dropScrolled.1.shrinkSlots.1.growSlots.1

def placed (p : Publisher) : Publisher :=
  p.publishSize.1.addBlocks.1.reconcileRoot.1.reconcileBlocks.1.setParents.1

def filled (p : Publisher) : Publisher :=
  p.removeDead.1.publishBlocks.1.publishRows.1.publishFields.1

theorem build_phases (p : Publisher) : p.build.1 = p.laidOut.placed.filled := rfl

theorem publishRoot_root (p : Publisher) : p.publishRoot.1.rootPublished = true := by
  unfold publishRoot
  split
  · assumption
  · rfl

theorem laidOut_model (p : Publisher) :
    p.laidOut.model = p.publishRoot.1.dropScrolled.1.model :=
  (growBy_kept _ _).1.trans (shrinkBy_kept _ _).1

theorem laidOut_kept (p : Publisher) :
    p.laidOut.rootPublished = true ∧ p.laidOut.slots.length = p.laidOut.rows ∧
      ∀ b ∈ p.laidOut.blocks, p.laidOut.scrolledOff b = false := by
  let dropped := p.publishRoot.1.dropScrolled.1
  rcases shrinkBy_kept (dropped.slots.length - dropped.rows) dropped with
    ⟨shrunkModel, shrunkRoot, shrunkSlots⟩
  let shrunk := dropped.shrinkSlots.1
  rcases growBy_kept (shrunk.rows - shrunk.slots.length) shrunk with
    ⟨grownModel, grownRoot, grownSlots⟩
  have model := laidOut_model p
  have rows : p.laidOut.rows = dropped.rows := rows_of_model model
  have shrunkRows : shrunk.rows = dropped.rows := rows_of_model shrunkModel
  refine ⟨?_, ?_, onScreen_congr model ?_⟩
  · exact (grownRoot.trans shrunkRoot).trans (publishRoot_root p)
  · have slots : p.laidOut.slots.length =
        shrunk.slots.length + (shrunk.rows - shrunk.slots.length) := grownSlots
    have cut : shrunk.slots.length =
        dropped.slots.length - (dropped.slots.length - dropped.rows) := shrunkSlots
    omega
  · intro b member
    have kept : decide (¬p.publishRoot.1.scrolledOff b = true) = true :=
      (List.mem_filter.mp member).2
    exact Bool.eq_false_iff.mpr (of_decide_eq_true kept)

theorem sized_model (p : Publisher) : p.publishSize.1.addBlocks.1.model = p.model :=
  addBlocks_model p.publishSize.1

theorem placed_model (p : Publisher) : p.placed.model = p.model :=
  (reconcileBlocks_model p.publishSize.1.addBlocks.1.reconcileRoot.1).trans (sized_model p)

theorem filled_model (p : Publisher) : p.filled.model = p.model :=
  publishBlocks_model p.removeDead.1

theorem shown_shown (b : Block) : shown (shown b) = shown b := by
  simp [shown, Block.isPrompt]

structure Placed (p : Publisher) : Prop where
  root : p.rootPublished = true
  rows : p.pubRows = p.rows
  cols : p.pubCols = p.cols
  children : p.rootChildren = p.rootOrder
  slots : p.slots.length = p.rows ∧
    ∀ row slot, p.slots[row]? = some slot → slot.pubParent = p.owner row
  blocks : ∀ b ∈ p.blocks, b.published = true ∧ b.pubChildren = p.rowsOf b.id
  onScreen : ∀ b ∈ p.blocks, p.scrolledOff b = false

/-- What is published before the children are placed. -/
structure Sized (p : Publisher) : Prop where
  root : p.rootPublished = true
  rows : p.pubRows = p.rows
  cols : p.pubCols = p.cols
  length : p.slots.length = p.rows
  blocks : ∀ b ∈ p.blocks, b.published = true
  onScreen : ∀ b ∈ p.blocks, p.scrolledOff b = false

theorem sized (root : p.rootPublished = true) (length : p.slots.length = p.rows)
    (onScreen : ∀ b ∈ p.blocks, p.scrolledOff b = false) :
    Sized p.publishSize.1.addBlocks.1 where
  root := root
  rows := rfl
  cols := rfl
  length := length
  blocks b member := by
    rcases List.mem_map.mp member with ⟨old, -, rfl⟩
    rfl
  onScreen := onScreen_congr (sized_model p) onScreen

theorem setParents_slots (p : Publisher) :
    p.setParents.1.slots.length = p.slots.length ∧
      ∀ row slot, p.setParents.1.slots[row]? = some slot → slot.pubParent = p.owner row := by
  have slots : p.setParents.1.slots = p.slots.zipIdx.map fun entry =>
      { entry.1 with pubParent := p.owner entry.2 } := rfl
  rw [slots]
  refine ⟨?_, fun row slot found => ?_⟩
  · rw [List.length_map, List.length_zipIdx]
  · rw [List.getElem?_map, Option.map_eq_some_iff] at found
    rcases found with ⟨⟨old, r⟩, found, rfl⟩
    have at_row : r = row := by
      rw [List.getElem?_zipIdx, Option.map_eq_some_iff] at found
      rcases found with ⟨_, -, paired⟩
      have second := (Prod.mk.inj paired).2
      omega
    rw [at_row]

theorem Sized.placed (sized : Sized p) :
    Placed p.reconcileRoot.1.reconcileBlocks.1.setParents.1 := by
  have kept : p.reconcileRoot.1.reconcileBlocks.1.model = p.model :=
    reconcileBlocks_model p.reconcileRoot.1
  have same : p.reconcileRoot.1.reconcileBlocks.1.setParents.1.model = p.model := kept
  rcases setParents_slots p.reconcileRoot.1.reconcileBlocks.1 with ⟨length, parents⟩
  constructor
  case root => exact sized.root
  case rows => exact sized.rows
  case cols => exact sized.cols
  case children => exact (rootOrder_congr same).symm
  case slots =>
    refine ⟨length.trans (sized.length.trans (rows_of_model same).symm), ?_⟩
    intro row slot found
    exact (parents row slot found).trans (owner_congr (kept.trans same.symm) row)
  case blocks =>
    intro b member
    have member : b ∈ p.blocks.map _ := member
    rcases List.mem_map.mp member with ⟨old, held, rfl⟩
    exact ⟨sized.blocks old held, (rowsOf_congr same _).symm⟩
  case onScreen => exact onScreen_congr same sized.onScreen

theorem placed_placed (root : p.rootPublished = true) (length : p.slots.length = p.rows)
    (onScreen : ∀ b ∈ p.blocks, p.scrolledOff b = false) : Placed p.placed :=
  (sized root length onScreen).placed

theorem filled_inStep (placed : Placed p) : InStep p.filled where
  root := placed.root
  rows := placed.rows
  cols := placed.cols
  cursor := rfl
  alt := rfl
  echo := rfl
  slots := by
    have model := filled_model p
    have rows : p.filled.rows = p.rows := rfl
    have slots : p.filled.slots = p.slots.zipIdx.map fun entry =>
        { entry.1 with
          pubText := p.filled.rowText entry.2, pubCursor := p.filled.rowCursor entry.2
          pubIsPrompt := p.removeDead.1.publishBlocks.1.rowIsPrompt entry.2 } := rfl
    rw [slots, rows]
    apply List.ext_getElem
    · simp [placed.slots.1]
    · intro row here there
      have inside : row < p.slots.length := by simpa using here
      have parent := placed.slots.2 row p.slots[row] (List.getElem?_eq_getElem inside)
      have prompts := rowIsPrompt_congr ((publishBlocks_model p.removeDead.1).trans model.symm) row
      simp [prompts, parent, owner_congr model]
  children := placed.children.trans (rootOrder_congr (filled_model p)).symm
  blocks b member := by
    have member : b ∈ p.blocks.map shown := member
    rcases List.mem_map.mp member with ⟨old, held, rfl⟩
    rcases placed.blocks old held with ⟨published, children⟩
    refine ⟨published, children.trans ?_, shown_shown old⟩
    exact (rowsOf_congr (filled_model p) _).symm
  onScreen := onScreen_congr (filled_model p) placed.onScreen
  dead := rfl

theorem publishRoot_blocks (p : Publisher) : p.publishRoot.1.blocks = p.blocks := by
  unfold publishRoot
  split <;> rfl

theorem build_blocks (p : Publisher) :
    p.build.1.blocks.map Block.core = (p.blocks.filter (¬p.scrolledOff ·)).map Block.core := by
  have model : p.build.1.model = p.publishRoot.1.dropScrolled.1.model := by
    rw [build_phases]
    exact ((filled_model _).trans (placed_model _)).trans (laidOut_model p)
  have blocks := congrArg Publisher.blocks model
  have top : p.publishRoot.1.primary = p.primary := primary_of_source (publishRoot_source p)
  generalize p.build.1 = built at *
  refine (blocks : built.blocks.map Block.core = _).trans ?_
  change (p.publishRoot.1.blocks.filter (¬p.publishRoot.1.scrolledOff ·)).map Block.core = _
  have scrolled : p.publishRoot.1.scrolledOff = p.scrolledOff := by
    funext b
    simp only [scrolledOff, top]
  rw [scrolled, publishRoot_blocks]

theorem build_inStep (p : Publisher) : InStep p.build.1 := by
  rw [build_phases]
  rcases laidOut_kept p with ⟨root, length, onScreen⟩
  exact filled_inStep (placed_placed root length onScreen)

end Publisher

end EclipseOS.Cataclysm
