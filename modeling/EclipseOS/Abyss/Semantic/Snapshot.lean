import EclipseOS.Abyss.Semantic.Secrecy
import EclipseOS.Foundation.Fallible

/-! # What an agent may be given of a tree

A snapshot leaves the secret nodes of a committed view out. The budget has been spent
by then, on secret nodes too, and what it left out was listed by id. -/

namespace EclipseOS.Abyss.Semantic

open Foundation PolicyEval

structure SnapNode where
  id : UInt32
  parent : UInt32
  role : UInt32
  name : String
  description : String
  value : Value
  states : UInt32
  rect : Option Rect
  actions : List (UInt32 × String)
  /-- At least the window's class. -/
  sensitivity : Class
  ext : List (String × String)
  children : List UInt32

structure Snapshot where
  generation : UInt64
  valueRev : UInt64
  complete : Bool
  truncated : List UInt32
  root : UInt32
  /-- Document order. -/
  nodes : List SnapNode

/-- The class of an id among classes that have each id once. -/
def classAt (classes : List (UInt32 × Class)) (id : UInt32) : Option Class :=
  (classes.find? (·.1 = id)).map (·.2)

def shown (classes : List (UInt32 × Class)) (id : UInt32) : Bool :=
  (classAt classes id).any (· ≠ .secret)

/-- A node's extensions with those that are kept elsewhere. -/
def View.ext (view : View) (id : UInt32) (node : Node) : List (String × String) :=
  node.ext ++ (if node.clamped then [("clamped", "true")] else []) ++
    (((view.sec.lookup id).bind (·.irreversible)).map ("irreversible", ·)).toList

def View.snapNode (view : View) (floor : Class) (classes : List (UInt32 × Class)) (id : UInt32) :
    Option SnapNode := do
  let node ← view.nodes.lookup id
  let «class» ← classAt classes id
  return {
    id
    parent := node.parent
    role := node.role
    name := node.name
    description := node.desc
    value := node.value
    states := node.states
    rect := node.rect
    actions := node.actions.map fun verb =>
      (verb, ((node.labels.find? (·.1 = verb)).map (·.2)).getD "")
    sensitivity := «class».max floor
    ext := view.ext id node
    children := node.children.filter (shown classes) }

/-- The tree an agent may read: no secret node and no descendant of one, and every
node at least `floor`. -/
def View.snapshot (view : View) (floor : Class) (now : Instant) : Option Snapshot := do
  let classes ← view.tree.effective now
  let nodes ← (view.order.filter (shown classes)).mapM (view.snapNode floor classes)
  return {
    generation := view.generation
    valueRev := view.valueRev
    complete := view.complete
    truncated := view.truncated
    root := if nodes.isEmpty then 0 else view.root
    nodes }

def Snapshot.names (snapshot : Snapshot) : List UInt32 :=
  snapshot.root :: snapshot.truncated ++
    snapshot.nodes.flatMap fun node => node.id :: node.parent :: node.children

/-- Whether a node of the model reads as secret. -/
def Model.hides (model : Model) (now : Instant) (id : UInt32) : Bool :=
  (model.effective now).any fun order => classAt order id = some .secret

/-- Whether a node of the model is there and does not read as secret. -/
def Model.shows (model : Model) (now : Instant) (id : UInt32) : Bool :=
  (model.effective now).any fun order => shown order id

/-! ## Classes of a document order -/

section Classes

variable {classes : List (UInt32 × Class)} {id : UInt32} {level : Class}

theorem mem_of_classAt (found : classAt classes id = some level) : (id, level) ∈ classes := by
  rcases Option.map_eq_some_iff.mp found with ⟨entry, entered, rfl⟩
  have same : entry.1 = id := by simpa using List.find?_some entered
  exact same ▸ List.mem_of_find?_eq_some entered

theorem classAt_eq_some (distinct : (classes.map Prod.fst).Nodup) :
    classAt classes id = some level ↔ (id, level) ∈ classes := by
  refine ⟨mem_of_classAt, fun member => ?_⟩
  induction classes with
  | nil => cases member
  | cons entry classes induction =>
    rw [List.map_cons, List.nodup_cons] at distinct
    rcases List.mem_cons.mp member with rfl | member
    · simp [classAt]
    · have different : entry.1 ≠ id := by
        rintro rfl
        exact distinct.1 (List.mem_map.mpr ⟨_, member, rfl⟩)
      rw [classAt, List.find?_cons_of_neg (by simpa using different)]
      exact induction distinct.2 member

theorem classAt_filter (kept : Finset UInt32) (classes : List (UInt32 × Class)) (id : UInt32) :
    classAt (classes.filter (·.1 ∈ kept)) id = if id ∈ kept then classAt classes id else none := by
  rw [classAt, List.find?_filter]
  split
  · rename_i keeps
    congr 2
    funext entry
    by_cases same : entry.1 = id
    · simp [same, keeps]
    · simp [same]
  · rename_i dropped
    rw [List.find?_eq_none.mpr]
    · rfl
    · intro entry _
      simp only [decide_eq_true_eq, not_and]
      rintro keeps rfl
      exact dropped keeps

theorem shown_filter (kept : Finset UInt32) (classes : List (UInt32 × Class)) (id : UInt32) :
    shown (classes.filter (·.1 ∈ kept)) id = (decide (id ∈ kept) && shown classes id) := by
  rw [shown, classAt_filter]
  split
  · rename_i keeps
    simp [keeps, shown]
  · rename_i dropped
    simp [dropped]

end Classes

variable {model : Model} {now later : Instant}

theorem class_from {stack order : List (UInt32 × Class)}
    (ordered : effectiveFrom model now stack = some order) {entry : UInt32 × Class}
    (member : entry ∈ order) :
    (∃ inherited, (entry.1, inherited) ∈ stack ∧
      entry.2 = model.classIn now entry.1 inherited) ∨
    ∃ above ∈ order, entry.1 ∈ childrenOf model.nodes above.1 ∧
      entry.2 = model.classIn now entry.1 above.2 := by
  revert member
  refine effectiveFrom_induct (motive := fun stack order => entry ∈ order →
    (∃ inherited, (entry.1, inherited) ∈ stack ∧
      entry.2 = model.classIn now entry.1 inherited) ∨
    ∃ above ∈ order, entry.1 ∈ childrenOf model.nodes above.1 ∧
      entry.2 = model.classIn now entry.1 above.2) nofun ?_ ?_ ordered
  · intro id inherited stack order absent induction member
    rcases induction member with ⟨inherited', stacked, same⟩ | above
    · exact .inl ⟨inherited', List.mem_cons_of_mem _ stacked, same⟩
    · exact .inr above
  · intro id inherited stack order node found induction member
    rcases List.mem_cons.mp member with same | member
    · exact .inl ⟨inherited, by rw [same]; exact List.mem_cons_self, by rw [same]⟩
    · rcases induction member with ⟨inherited', stacked, same⟩ | ⟨above, counted, child, same⟩
      · rcases List.mem_append.mp stacked with pushed | stacked
        · rcases List.mem_map.mp pushed with ⟨child, listed, pair⟩
          cases pair
          refine .inr ⟨(id, _), List.mem_cons_self, ?_, same⟩
          rwa [childrenOf_some found]
        · exact .inl ⟨inherited', List.mem_cons_of_mem _ stacked, same⟩
      · exact .inr ⟨above, List.mem_cons_of_mem _ counted, child, same⟩

theorem classIn_secret (model : Model) (now : Instant) (id : UInt32) :
    model.classIn now id .secret = .secret := by
  unfold Model.classIn
  split
  · rfl
  · cases (model.sec.lookup id).elim Class.private (·.local now) <;> rfl

theorem effective_ids {first second : List (UInt32 × Class)}
    (ordered : model.effective now = some first) (ordered' : model.effective later = some second) :
    first.map Prod.fst = second.map Prod.fst := by
  have ids := effectiveFrom_induct (motive := fun stack order =>
    ∀ stack' order', stack'.map Prod.fst = stack.map Prod.fst →
      effectiveFrom model later stack' = some order' →
        order.map Prod.fst = order'.map Prod.fst) ?_ ?_ ?_ ordered
  · exact ids _ _ rfl ordered'
  · intro stack' order' same run
    rw [List.map_nil, List.map_eq_nil_iff] at same
    rw [same, effectiveFrom] at run
    cases run
    rfl
  · intro id inherited stack order absent induction stack' order' same run
    rcases stack' with _ | ⟨⟨id', inherited'⟩, stack'⟩
    · cases same
    · rcases List.cons_eq_cons.mp same with ⟨rfl, rest⟩
      rw [effectiveFrom_skip absent] at run
      exact induction stack' order' rest run
  · intro id inherited stack order node found induction stack' order' same run
    rcases stack' with _ | ⟨⟨id', inherited'⟩, stack'⟩
    · cases same
    · rcases List.cons_eq_cons.mp same with ⟨rfl, rest⟩
      rw [effectiveFrom_visit found] at run
      rcases Option.map_eq_some_iff.mp run with ⟨below, deeper, rfl⟩
      rw [List.map_cons, List.map_cons]
      congr 1
      refine induction _ below ?_ deeper
      simp [Function.comp_def, rest]

/-! ## The nodes shown -/

/-- A document order as its child lists and classes give it. -/
inductive Preorder (children : UInt32 → List UInt32) (classIn : UInt32 → Class → Class) :
    List (UInt32 × Class) → List (UInt32 × Class) → Prop where
  | nil : Preorder children classIn [] []
  | visit {id inherited stack order}
      (rest : Preorder children classIn
        ((children id).map (·, classIn id inherited) ++ stack) order) :
      Preorder children classIn ((id, inherited) :: stack) ((id, classIn id inherited) :: order)

theorem preorder_of_effectiveFrom {keep : UInt32 → Bool} {stack order : List (UInt32 × Class)}
    (closed : ∀ id child, child ∈ childrenOf model.nodes id → keep child → keep id)
    (present : ∀ id, keep id → model.contains id)
    (ordered : effectiveFrom model now stack = some order) :
    Preorder (fun id => (childrenOf model.nodes id).filter keep) (model.classIn now)
      (stack.filter fun entry => keep entry.1) (order.filter fun entry => keep entry.1) := by
  refine effectiveFrom_induct (motive := fun stack order =>
    Preorder (fun id => (childrenOf model.nodes id).filter keep) (model.classIn now)
      (stack.filter fun entry => keep entry.1) (order.filter fun entry => keep entry.1))
    .nil ?_ ?_ ordered
  · intro id inherited stack order absent induction
    have dropped : ¬keep id := by
      intro keeps
      have found := present id keeps
      rw [Model.contains, absent] at found
      cases found
    rwa [List.filter_cons_of_neg (by simpa using dropped)]
  · intro id inherited stack order node found induction
    rw [List.filter_append, List.filter_map] at induction
    by_cases keeps : keep id
    · rw [List.filter_cons_of_pos (by simpa using keeps),
        List.filter_cons_of_pos (by simpa using keeps)]
      refine .visit ?_
      rw [childrenOf_some found]
      exact induction
    · have none : node.children.filter ((fun entry : UInt32 × Class => keep entry.1) ∘
          (·, model.classIn now id inherited)) = [] := by
        rw [List.filter_eq_nil_iff]
        intro child member keepsChild
        refine keeps (closed id child ?_ keepsChild)
        rwa [childrenOf_some found]
      rw [none, List.map_nil, List.nil_append] at induction
      rwa [List.filter_cons_of_neg (by simpa using keeps),
        List.filter_cons_of_neg (by simpa using keeps)]

theorem Preorder.agree (keep : UInt32 → Bool) {children children' : UInt32 → List UInt32}
    {classIn classIn' : UInt32 → Class → Class} {stack order order' : List (UInt32 × Class)}
    (same : ∀ id, keep id → children id = children' id ∧ classIn id = classIn' id)
    (within : ∀ id, ∀ child ∈ children id, keep child)
    (start : ∀ entry ∈ stack, keep entry.1) (first : Preorder children classIn stack order)
    (second : Preorder children' classIn' stack order') : order = order' := by
  induction first generalizing order' with
  | nil =>
    cases second
    rfl
  | @visit id inherited stack order rest induction =>
    cases second with
    | visit rest' =>
      rcases same id (start _ List.mem_cons_self) with ⟨sameChildren, sameClass⟩
      rw [← sameChildren, ← sameClass] at rest'
      rw [← sameClass, induction ?_ rest']
      intro entry member
      rcases List.mem_append.mp member with pushed | stacked
      · rcases List.mem_map.mp pushed with ⟨child, listed, rfl⟩
        exact within id child listed
      · exact start entry (List.mem_cons_of_mem _ stacked)

/-- What the budget did with a model, as far as a snapshot can tell. -/
structure Spent where
  complete : Bool
  /-- The nodes shown that were kept, in document order. -/
  kept : List UInt32
  /-- The children listed as left out. -/
  reported : List UInt32
  deriving DecidableEq

def Model.spent (model : Model) (now : Instant) : Option Spent := do
  let order ← model.effective now
  let ids := order.map Prod.fst
  let kept ← model.choose ids
  return ⟨kept.card = order.length, (ids.filter (· ∈ kept)).filter (shown order),
    (model.leftOut kept ids).take truncatedMax⟩

/-- A node without the children that are not shown. -/
def Node.seen (node : Node) (shows : UInt32 → Bool) : Node :=
  { node with children := node.children.filter shows }

/-- Two models that differ only inside secret subtrees. -/
structure SameOutside (first second : Model) (now : Instant) : Prop where
  generation : first.generation = second.generation
  valueRev : first.valueRev = second.valueRev
  structural : first.dirtyStructural = second.dirtyStructural
  shows : ∀ id, first.shows now id = second.shows now id
  nodes : ∀ id, first.shows now id →
    (first.nodes.lookup id).map (·.seen (first.shows now)) =
      (second.nodes.lookup id).map (·.seen (second.shows now))
  sec : ∀ id, first.shows now id → first.sec.lookup id = second.sec.lookup id

theorem SameOutside.symm {first second : Model} (same : SameOutside first second now) :
    SameOutside second first now where
  generation := same.generation.symm
  valueRev := same.valueRev.symm
  structural := same.structural.symm
  shows id := (same.shows id).symm
  nodes id there := (same.nodes id ((same.shows id).trans there)).symm
  sec id there := (same.sec id ((same.shows id).trans there)).symm

section Shown

variable {order : List (UInt32 × Class)} {id : UInt32}

theorem shows_eq (ordered : model.effective now = some order) : model.shows now id = shown order id := by
  simp [Model.shows, ordered]

theorem hides_eq (ordered : model.effective now = some order) :
    model.hides now id = decide (classAt order id = some .secret) := by
  simp [Model.hides, ordered]

theorem of_shown (shows : shown order id) : ∃ level, (id, level) ∈ order ∧ level ≠ .secret := by
  rcases (Option.any_eq_true _ _).mp shows with ⟨level, found, open'⟩
  exact ⟨level, mem_of_classAt found, by simpa using open'⟩

theorem contains_of_shown (wellFormed : model.WellFormed)
    (ordered : model.effective now = some order) (shows : shown order id) : model.contains id := by
  rcases of_shown shows with ⟨level, member, _⟩
  exact (mem_order_iff wellFormed ordered id).mp (List.mem_map.mpr ⟨_, member, rfl⟩)

theorem untainted_of_shown (ordered : model.effective now = some order)
    (shows : shown order id) : model.tainted = false := by
  rcases of_shown shows with ⟨level, member, open'⟩
  by_contra tainted
  have secret (inherited : Class) : model.classIn now id inherited = .secret := by
    rw [Model.classIn, if_pos (by simpa using tainted)]
  exact open' (secret_of_own ordered member secret)

theorem shown_parent (wellFormed : model.WellFormed) (ordered : model.effective now = some order)
    {child : UInt32} (listed : child ∈ childrenOf model.nodes id) (shows : shown order child) :
    shown order id := by
  have link := (wellFormed.tree.listed id child).mp listed
  rcases wellFormed.effective_some now with ⟨order', ordered', _, distinct, _⟩
  rw [ordered] at ordered'
  cases ordered'
  rcases of_shown shows with ⟨level, member, open'⟩
  rcases class_from ordered member with ⟨inherited, stacked, _⟩ | ⟨above, counted, listed', same⟩
  · -- the root has no parent
    cases List.mem_singleton.mp stacked
    have orphan := (wellFormed.root_orphan (contains_of_shown wellFormed ordered shows)).2
    rw [link] at orphan
    cases orphan
  · rw [(wellFormed.tree.listed _ _).mp listed'] at link
    cases link
    rw [shown, (classAt_eq_some distinct).mpr counted, Option.any_some, decide_eq_true_eq]
    intro secret
    dsimp only at same
    rw [secret, classIn_secret] at same
    exact open' same

end Shown

/-! ## Two models -/

section Two

variable {first second : Model} {order₁ order₂ : List (UInt32 × Class)}

theorem SameOutside.root (same : SameOutside first second later) (wellFormed₂ : second.WellFormed)
    (wellFormed₁ : first.WellFormed) (ordered₁ : first.effective later = some order₁)
    (shows : shown order₁ first.root) : second.root = first.root := by
  have present := contains_of_shown wellFormed₁ ordered₁ shows
  rcases wellFormed₁.root_orphan present with ⟨named, orphan⟩
  rcases Option.map_eq_some_iff.mp orphan with ⟨node, found, top⟩
  have seen := same.nodes first.root ((shows_eq ordered₁).trans shows)
  rw [found] at seen
  rcases Option.map_eq_some_iff.mp seen.symm with ⟨node', found', alike⟩
  have parents : node'.parent = node.parent := by
    have fields := congrArg Node.parent alike
    exact fields
  have orphan' : parentsOf second.nodes first.root = some none := by
    rw [parentsOf_some found', up_eq_none.mpr (parents.trans (up_eq_none.mp top))]
  exact (rootOf_eq_some.mp ((wellFormed₂.tree.sole _).mp orphan')).1

theorem SameOutside.orders (same : SameOutside first second later) (wellFormed₁ : first.WellFormed)
    (wellFormed₂ : second.WellFormed) (ordered₁ : first.effective later = some order₁)
    (ordered₂ : second.effective later = some order₂) :
    order₁.filter (fun entry => shown order₁ entry.1) =
      order₂.filter (fun entry => shown order₂ entry.1) := by
  have shows : shown order₁ = shown order₂ := by
    funext id
    rw [← shows_eq ordered₁, ← shows_eq ordered₂, same.shows]
  have walk₁ := preorder_of_effectiveFrom (fun id child => shown_parent wellFormed₁ ordered₁)
    (fun id => contains_of_shown wellFormed₁ ordered₁) ordered₁
  have walk₂ := preorder_of_effectiveFrom (fun id child => shown_parent wellFormed₂ ordered₂)
    (fun id => contains_of_shown wellFormed₂ ordered₂) ordered₂
  have start : [(second.root, Class.private)].filter (fun entry => shown order₂ entry.1) =
      [(first.root, Class.private)].filter (fun entry => shown order₁ entry.1) := by
    by_cases there : shown order₁ first.root
    · rw [same.root wellFormed₂ wellFormed₁ ordered₁ there, shows]
    · have absent : ¬shown order₂ second.root := by
        intro there'
        have roots := same.symm.root wellFormed₁ wellFormed₂ ordered₂ there'
        rw [← roots, ← shows] at there'
        exact there there'
      rw [List.filter_cons_of_neg (by simpa using absent),
        List.filter_cons_of_neg (by simpa using there)]
      rfl
  rw [start] at walk₂
  refine Preorder.agree (shown order₁) (fun id there => ⟨?_, ?_⟩) (fun id child member => ?_)
    (fun entry member => ?_) walk₁ walk₂
  · have there' : first.shows later id := (shows_eq ordered₁).trans there
    have seen := same.nodes id there'
    rcases Option.isSome_iff_exists.mp (contains_of_shown wellFormed₁ ordered₁ there) with
      ⟨node₁, found₁⟩
    rcases Option.isSome_iff_exists.mp (contains_of_shown wellFormed₂ ordered₂ (shows ▸ there)) with
      ⟨node₂, found₂⟩
    have shows₁ : first.shows later = shown order₁ := funext fun _ => shows_eq ordered₁
    have shows₂ : second.shows later = shown order₂ := funext fun _ => shows_eq ordered₂
    rw [found₁, found₂, shows₁, shows₂] at seen
    rw [childrenOf_some found₁, childrenOf_some found₂]
    exact congrArg Node.children (Option.some.inj seen)
  · have there' : first.shows later id := (shows_eq ordered₁).trans there
    funext inherited
    rw [Model.classIn, Model.classIn, same.sec id there', untainted_of_shown ordered₁ there,
      untainted_of_shown ordered₂ (shows ▸ there)]
  · exact (List.mem_filter.mp member).2
  · exact (List.mem_filter.mp member).2

end Two

/-! ## The snapshot -/

section Snapshot

variable {size : Int32 × Int32} {commit : Commit} {view : View} {order : List (UInt32 × Class)}
  {kept : Finset UInt32} {classes : List (UInt32 × Class)} {floor : Class}

/-- The nodes a snapshot has, and what the budget did, in terms of the classes at the
time it is taken. -/
theorem Publishes.spent (publishes : Publishes model size now commit view order kept)
    (ordered : model.effective later = some classes) :
    model.spent later = some ⟨view.complete,
      view.order.filter (shown (classes.filter (·.1 ∈ kept))), view.truncated⟩ := by
  have ids := effective_ids publishes.ordered ordered
  have counts : order.length = classes.length := by simpa using congrArg List.length ids
  have among : view.order.filter (shown (classes.filter (·.1 ∈ kept))) =
      ((classes.map Prod.fst).filter (· ∈ kept)).filter (shown classes) := by
    rw [publishes.ids, ids]
    refine List.filter_congr fun id member => ?_
    rw [shown_filter, (List.mem_filter.mp member).2, Bool.true_and]
  rw [Model.spent, ordered]
  simp only [Option.bind_eq_bind, Option.bind_some]
  rw [← ids, publishes.chosen]
  simp only [Option.bind_some, Option.pure_def, among, publishes.complete, publishes.truncated, ids,
    counts]

theorem Publishes.copied (publishes : Publishes model size now commit view order kept)
    {id : UInt32} {copy : Node} (found : view.nodes.lookup id = some copy) :
    ∃ node, model.nodes.lookup id = some node ∧ copy = node.published size kept := by
  rw [publishes.nodes] at found
  split at found
  · rcases Option.map_eq_some_iff.mp found with ⟨node, original, same⟩
    exact ⟨node, original, same.symm⟩
  · cases found

theorem Publishes.snapNode_some (publishes : Publishes model size now commit view order kept)
    (floor : Class) {id : UInt32} (member : id ∈ view.order.filter (shown (classes.filter (·.1 ∈ kept)))) :
    ∃ node, view.snapNode floor (classes.filter (·.1 ∈ kept)) id = some node ∧ node.id = id := by
  rcases List.mem_filter.mp member with ⟨counted, shows⟩
  rw [publishes.ids] at counted
  have keeps : id ∈ kept := by simpa using (List.mem_filter.mp counted).2
  rcases Option.isSome_iff_exists.mp (publishes.closed.present id keeps) with ⟨node, found⟩
  rcases (Option.any_eq_true _ _).mp shows with ⟨level, classed, _⟩
  have copied : view.nodes.lookup id = some (node.published size kept) := by
    rw [publishes.nodes, if_pos keeps, found]
    rfl
  rw [View.snapNode, copied]
  simp only [Option.bind_eq_bind, Option.bind_some, classed]
  exact ⟨_, rfl, rfl⟩

theorem mapM_some {α β : Type} {make : α → Option β} (back : β → α) {items : List α}
    (all : ∀ item ∈ items, ∃ made, make item = some made ∧ back made = item) :
    ∃ made, items.mapM make = some made ∧ made.map back = items := by
  induction items with
  | nil => exact ⟨[], rfl, rfl⟩
  | cons item items induction =>
    rcases all item List.mem_cons_self with ⟨first, made, same⟩
    rcases induction fun other member => all other (List.mem_cons_of_mem _ member) with
      ⟨rest, mades, sames⟩
    exact ⟨first :: rest, by simp [List.mapM_cons, made, mades], by simp [same, sames]⟩

theorem Publishes.snapshot (wellFormed : model.WellFormed)
    (publishes : Publishes model size now commit view order kept)
    (ordered : model.effective later = some classes) (floor : Class) :
    ∃ nodes, (view.order.filter (shown (classes.filter (·.1 ∈ kept)))).mapM
        (view.snapNode floor (classes.filter (·.1 ∈ kept))) = some nodes ∧
      nodes.map (·.id) = view.order.filter (shown (classes.filter (·.1 ∈ kept))) ∧
      view.snapshot floor later = some ⟨view.generation, view.valueRev, view.complete,
        view.truncated, if nodes.isEmpty then 0 else view.root, nodes⟩ := by
  rcases mapM_some SnapNode.id fun id member => publishes.snapNode_some floor member with
    ⟨nodes, made, ids⟩
  refine ⟨nodes, made, ids, ?_⟩
  rw [View.snapshot, publishes.effective wellFormed ordered]
  simp only [Option.bind_eq_bind, Option.bind_some, made]
  rfl

theorem shown_above (wellFormed : model.WellFormed) (ordered : model.effective later = some classes)
    {top id : UInt32} (above : Above (parentsOf model.nodes) top id) (shows : shown classes id) :
    shown classes top := by
  induction above with
  | refl => exact shows
  | child link rest induction =>
    exact induction (shown_parent wellFormed ordered ((wellFormed.tree.listed _ _).mpr link) shows)

theorem not_hides_of_shown (ordered : model.effective later = some classes) {id : UInt32}
    (shows : shown classes id) : ¬model.hides later id := by
  rcases (Option.any_eq_true _ _).mp shows with ⟨level, classed, open'⟩
  rw [hides_eq ordered, classed, decide_eq_true_eq, Option.some.injEq]
  simpa using open'

theorem Publishes.names_iff (wellFormed : model.WellFormed)
    (publishes : Publishes model size now commit view order kept)
    (ordered : model.effective later = some classes) {snapshot : Snapshot}
    (taken : view.snapshot floor later = some snapshot) :
    (∀ id ∈ snapshot.names, ¬model.hides later id) ↔
      ∀ id ∈ view.truncated, ¬model.hides later id := by
  rcases publishes.snapshot wellFormed ordered floor with ⟨nodes, made, ids, taken'⟩
  rw [taken] at taken'
  cases taken'
  have zero : ¬model.hides later 0 := by
    intro hides
    rw [hides_eq ordered, decide_eq_true_eq] at hides
    have counted := (mem_order_iff wellFormed ordered 0).mp
      (List.mem_map.mpr ⟨_, mem_of_classAt hides, rfl⟩)
    exact wellFormed.ne_zero counted rfl
  have shows (id : UInt32) (member : id ∈ nodes.map (·.id)) : shown classes id := by
    rw [ids] at member
    have both := (List.mem_filter.mp member).2
    rw [shown_filter, Bool.and_eq_true] at both
    exact both.2
  have node (node : SnapNode) (member : node ∈ nodes) :
      ¬model.hides later node.parent ∧ ∀ child ∈ node.children, ¬model.hides later child := by
    rcases exists_of_mem_mapM made member with ⟨id, counted, snapped⟩
    rcases Option.bind_eq_some_iff.mp snapped with ⟨copy, copied, snapped⟩
    rcases Option.bind_eq_some_iff.mp snapped with ⟨level, _, snapped⟩
    cases snapped
    rcases publishes.copied copied with ⟨original, found, rfl⟩
    refine ⟨?_, fun child member => ?_⟩
    · show ¬model.hides later (original.published size kept).parent
      rw [published_parent]
      by_cases top : original.parent = 0
      · rwa [top]
      · have listed := (wellFormed.tree.listed original.parent id).mpr (by
          rw [parentsOf_some found, up_eq_some.mpr ⟨rfl, top⟩])
        exact not_hides_of_shown ordered
          (shown_parent wellFormed ordered listed (shows id (ids ▸ counted)))
    · have both := (List.mem_filter.mp member).2
      rw [shown_filter, Bool.and_eq_true] at both
      exact not_hides_of_shown ordered both.2
  have root : ¬model.hides later (if nodes.isEmpty then 0 else view.root) := by
    split
    · exact zero
    · rename_i some'
      rcases List.exists_mem_of_ne_nil nodes (by simpa using some') with ⟨first, member⟩
      have there := shows first.id (List.mem_map_of_mem member)
      have present := contains_of_shown wellFormed ordered there
      have named : rootOf model.root = some model.root :=
        rootOf_eq_some.mpr ⟨rfl, (wellFormed.root_orphan present).1⟩
      rw [publishes.root]
      exact not_hides_of_shown ordered (shown_above wellFormed ordered
        (wellFormed.tree.above_root named (contains_iff.mp present)) there)
  constructor
  · exact fun clean id member => clean id
      (List.mem_cons_of_mem _ (List.mem_append_left _ member))
  · intro reported id member
    rcases List.mem_append.mp member with first | inNodes
    · rcases List.mem_cons.mp first with rfl | listed
      · exact root
      · exact reported id listed
    · rcases List.mem_flatMap.mp inNodes with ⟨snap, among, named⟩
      rcases List.mem_cons.mp named with rfl | named
      · exact not_hides_of_shown ordered (shows _ (List.mem_map_of_mem among))
      · rcases List.mem_cons.mp named with rfl | child
        · exact (node snap among).1
        · exact (node snap among).2 id child

end Snapshot

/-! ## Two snapshots -/

section Two

variable {first second model₁ model₂ : Model} {view₁ view₂ : View} {size : Int32 × Int32}
  {now₁ now₂ : Instant} {commit₁ commit₂ : Commit} {order₁ order₂ : List (UInt32 × Class)}
  {kept₁ kept₂ : Finset UInt32} {classes₁ classes₂ : List (UInt32 × Class)} {floor : Class}

/-- What is shown of a node is the node without the children that are not shown, its
class and its record. -/
theorem snapNode_congr {id : UInt32} {copy₁ copy₂ : Node}
    (found₁ : view₁.nodes.lookup id = some copy₁) (found₂ : view₂.nodes.lookup id = some copy₂)
    (level : classAt classes₁ id = classAt classes₂ id)
    (alike : copy₁.seen (shown classes₁) = copy₂.seen (shown classes₂))
    (sec : view₁.sec.lookup id = view₂.sec.lookup id) :
    view₁.snapNode floor classes₁ id = view₂.snapNode floor classes₂ id := by
  rw [View.snapNode, View.snapNode, found₁, found₂, level]
  cases copy₁
  cases copy₂
  simp only [Node.seen, Node.mk.injEq] at alike
  rcases alike with ⟨rfl, children, rfl, rfl, rfl, rfl, rfl, rfl, rfl, rfl, rfl, rfl⟩
  simp [View.ext, sec, children]

theorem published_seen (shows : UInt32 → Bool) (node : Node) {vis : UInt32 → Bool}
    {kept : Finset UInt32} (both : ∀ id, vis id → id ∈ kept ∧ shows id) :
    (node.published size kept).seen vis = ((node.seen shows).clampedTo size).seen vis := by
  have first : (node.children.filter (· ∈ kept)).filter vis = node.children.filter vis := by
    rw [List.filter_filter]
    refine List.filter_congr fun id _ => ?_
    by_cases sees : vis id
    · simp [sees, (both id sees).1]
    · simp [sees]
  have second : (node.children.filter shows).filter vis = node.children.filter vis := by
    rw [List.filter_filter]
    refine List.filter_congr fun id _ => ?_
    by_cases sees : vis id
    · simp [sees, (both id sees).2]
    · simp [sees]
  unfold Node.published Node.seen Node.clampedTo
  cases node.rect <;> simp only [first, second]

theorem mapM_congr {α β : Type} {make make' : α → Option β} {items : List α}
    (same : ∀ item ∈ items, make item = make' item) : items.mapM make = items.mapM make' := by
  induction items with
  | nil => rfl
  | cons item items induction =>
    rw [List.mapM_cons, List.mapM_cons, same item List.mem_cons_self,
      induction fun other member => same other (List.mem_cons_of_mem _ member)]

theorem SameOutside.classAt (same : SameOutside first second later)
    (wellFormed₁ : first.WellFormed) (wellFormed₂ : second.WellFormed)
    (ordered₁ : first.effective later = some classes₁)
    (ordered₂ : second.effective later = some classes₂) {id : UInt32} (shows : shown classes₁ id) :
    classAt classes₁ id = classAt classes₂ id := by
  rcases wellFormed₂.effective_some later with ⟨_, ordered, _, distinct, _⟩
  rw [ordered₂] at ordered
  cases ordered
  rcases (Option.any_eq_true _ _).mp shows with ⟨level, classed, _⟩
  have member : (id, level) ∈ classes₁.filter (fun entry => shown classes₁ entry.1) :=
    List.mem_filter.mpr ⟨mem_of_classAt classed, shows⟩
  rw [same.orders wellFormed₁ wellFormed₂ ordered₁ ordered₂] at member
  rw [classed, (classAt_eq_some distinct).mpr (List.mem_filter.mp member).1]

theorem Publishes.mem_shown {view : View} {commit : Commit} {order classes : List (UInt32 × Class)}
    {kept : Finset UInt32} (wellFormed : model.WellFormed)
    (publishes : Publishes model size now commit view order kept) (id : UInt32) :
    id ∈ view.order.filter (shown (classes.filter (·.1 ∈ kept))) ↔
      shown (classes.filter (·.1 ∈ kept)) id := by
  rw [List.mem_filter, and_iff_right_iff_imp]
  intro shows
  rw [shown_filter, Bool.and_eq_true] at shows
  rw [publishes.ids, List.mem_filter]
  refine ⟨(mem_order_iff wellFormed publishes.ordered id).mpr ?_, shows.1⟩
  exact publishes.closed.present id (by simpa using shows.1)

/-- Between models that differ only inside secret subtrees, snapshots differ exactly
where the budget did something else. -/
theorem SameOutside.snapshot_iff (same : SameOutside first second later)
    (wellFormed₁ : first.WellFormed) (wellFormed₂ : second.WellFormed)
    (publishes₁ : Publishes first size now₁ commit₁ view₁ order₁ kept₁)
    (publishes₂ : Publishes second size now₂ commit₂ view₂ order₂ kept₂)
    (ordered₁ : first.effective later = some classes₁)
    (ordered₂ : second.effective later = some classes₂) :
    view₁.snapshot floor later = view₂.snapshot floor later ↔
      first.spent later = second.spent later := by
  rcases publishes₁.snapshot wellFormed₁ ordered₁ floor with ⟨nodes₁, made₁, ids₁, taken₁⟩
  rcases publishes₂.snapshot wellFormed₂ ordered₂ floor with ⟨nodes₂, made₂, ids₂, taken₂⟩
  rw [taken₁, taken₂, publishes₁.spent ordered₁, publishes₂.spent ordered₂]
  simp only [Option.some.injEq, Snapshot.mk.injEq, Spent.mk.injEq]
  constructor
  · rintro ⟨_, _, complete, truncated, _, nodes⟩
    rw [← ids₁, ← ids₂, nodes]
    exact ⟨complete, rfl, truncated⟩
  · rintro ⟨complete, kept, truncated⟩
    have vis : shown (classes₁.filter (·.1 ∈ kept₁)) = shown (classes₂.filter (·.1 ∈ kept₂)) := by
      funext id
      rw [Bool.eq_iff_iff, ← publishes₁.mem_shown wellFormed₁, ← publishes₂.mem_shown wellFormed₂,
        kept]
    have shows : first.shows later = second.shows later := funext same.shows
    have shows₁ : first.shows later = shown classes₁ := funext fun _ => shows_eq ordered₁
    have shows₂ : second.shows later = shown classes₂ := funext fun _ => shows_eq ordered₂
    have nodes : nodes₁ = nodes₂ := by
      refine Option.some.inj (made₁.symm.trans (Eq.trans ?_ made₂))
      rw [kept]
      refine mapM_congr fun id member => ?_
      have sees₂ := (publishes₂.mem_shown wellFormed₂ id).mp member
      have sees₁ := vis ▸ sees₂
      rw [shown_filter, Bool.and_eq_true, decide_eq_true_eq] at sees₁ sees₂
      rcases Option.isSome_iff_exists.mp (publishes₁.closed.present id sees₁.1) with ⟨node₁, found₁⟩
      rcases Option.isSome_iff_exists.mp (publishes₂.closed.present id sees₂.1) with ⟨node₂, found₂⟩
      have there : first.shows later id := (shows_eq ordered₁).trans sees₁.2
      have seen := same.nodes id there
      rw [found₁, found₂, shows₁, shows₂] at seen
      have copy₁ : view₁.nodes.lookup id = some (node₁.published size kept₁) := by
        rw [publishes₁.nodes, if_pos sees₁.1, found₁]
        rfl
      have copy₂ : view₂.nodes.lookup id = some (node₂.published size kept₂) := by
        rw [publishes₂.nodes, if_pos sees₂.1, found₂]
        rfl
      refine snapNode_congr copy₁ copy₂ ?_ ?_ ?_
      · rw [classAt_filter, if_pos sees₁.1, classAt_filter, if_pos sees₂.1]
        exact same.classAt wellFormed₁ wellFormed₂ ordered₁ ordered₂ sees₁.2
      · rw [published_seen (shown classes₁), published_seen (shown classes₂), vis]
        · exact congrArg (fun node : Node => (node.clampedTo size).seen _) (Option.some.inj seen)
        · intro other
          simp [shown_filter]
        · intro other
          simp [shown_filter]
      · rw [publishes₁.sec, publishes₂.sec, same.sec id there]
    have root : (if nodes₁.isEmpty then 0 else view₁.root) =
        if nodes₂.isEmpty then 0 else view₂.root := by
      rw [nodes]
      split
      · rfl
      · rename_i some'
        rcases List.exists_mem_of_ne_nil nodes₂ (by simpa using some') with ⟨any, member⟩
        have among := List.mem_map_of_mem (f := SnapNode.id) (nodes ▸ member)
        rw [ids₁, publishes₁.mem_shown wellFormed₁, shown_filter, Bool.and_eq_true] at among
        have present := contains_of_shown wellFormed₁ ordered₁ among.2
        have named : rootOf first.root = some first.root :=
          rootOf_eq_some.mpr ⟨rfl, (wellFormed₁.root_orphan present).1⟩
        have top := shown_above wellFormed₁ ordered₁
          (wellFormed₁.tree.above_root named (contains_iff.mp present)) among.2
        rw [publishes₁.root, publishes₂.root, same.root wellFormed₂ wellFormed₁ ordered₁ top]
    refine ⟨?_, ?_, complete, truncated, root, nodes⟩
    · rw [publishes₁.generation, publishes₂.generation, same.generation, same.structural]
    · rw [publishes₁.valueRev, publishes₂.valueRev, same.valueRev, same.structural]

end Two

/-! ## Within the budget -/

theorem spent_of_fits (wellFormed : model.WellFormed) (fits : model.len ≤ nodeBudget)
    {order : List (UInt32 × Class)} (ordered : model.effective now = some order) :
    model.spent now = some ⟨true, (order.map Prod.fst).filter (shown order), []⟩ := by
  rcases wellFormed.effective_some now with ⟨_, ordered', complete, distinct, all⟩
  rw [ordered] at ordered'
  cases ordered'
  have every (id : UInt32) (member : id ∈ order.map Prod.fst) :
      decide (id ∈ (order.map Prod.fst).toFinset) = true := by
    rw [decide_eq_true_eq, List.mem_toFinset]
    exact member
  have whole : (order.map Prod.fst).filter (· ∈ (order.map Prod.fst).toFinset) =
      order.map Prod.fst := List.filter_eq_self.mpr every
  have none : model.leftOut (order.map Prod.fst).toFinset (order.map Prod.fst) = [] := by
    rw [Model.leftOut, List.flatMap_eq_nil_iff]
    intro id _
    rw [List.filter_eq_nil_iff]
    intro child member
    rw [decide_eq_true_eq, not_not, List.mem_toFinset, all, (wellFormed.tree.listed _ _).mp member]
    rfl
  have chosen : model.choose (order.map Prod.fst) = some (order.map Prod.fst).toFinset := by
    rw [Model.choose, List.length_map, complete, if_pos fits]
    rfl
  rw [Model.spent, ordered]
  simp only [Option.bind_eq_bind, Option.bind_some, chosen, whole, none, List.take_nil,
    List.toFinset_card_of_nodup distinct, List.length_map, decide_true]
  rfl

theorem SameOutside.spent_of_fits {first second : Model} (same : SameOutside first second later)
    (wellFormed₁ : first.WellFormed) (wellFormed₂ : second.WellFormed)
    (fits₁ : first.len ≤ nodeBudget) (fits₂ : second.len ≤ nodeBudget) :
    first.spent later = second.spent later := by
  rcases wellFormed₁.effective_some later with ⟨order₁, ordered₁, _⟩
  rcases wellFormed₂.effective_some later with ⟨order₂, ordered₂, _⟩
  have alike := congrArg (List.map Prod.fst) (same.orders wellFormed₁ wellFormed₂ ordered₁ ordered₂)
  rw [Semantic.spent_of_fits wellFormed₁ fits₁ ordered₁,
    Semantic.spent_of_fits wellFormed₂ fits₂ ordered₂, List.filter_map, List.filter_map]
  exact congrArg (fun kept => some (Spent.mk true kept [])) alike

/-! ## What a snapshot reveals -/

theorem fill_mono {kept filled : Finset UInt32} {order : List UInt32}
    (run : model.fill kept order = some filled) : kept ⊆ filled := by
  induction order generalizing kept with
  | nil =>
    cases run
    exact subset_rfl
  | cons id order induction =>
    rw [Model.fill] at run
    split at run
    · cases run
      exact subset_rfl
    · rcases Option.bind_eq_some_iff.mp run with ⟨node, _, rest⟩
      dsimp only at rest
      split at rest
      · exact (Finset.subset_insert _ _).trans (induction rest)
      · exact induction rest

theorem fill_card {kept filled : Finset UInt32} {order : List UInt32}
    (run : model.fill kept order = some filled) (fits : kept.card ≤ nodeBudget) :
    filled.card ≤ nodeBudget := by
  induction order generalizing kept with
  | nil =>
    cases run
    exact fits
  | cons id order induction =>
    rw [Model.fill] at run
    split at run
    · cases run
      exact fits
    · rename_i below
      rcases Option.bind_eq_some_iff.mp run with ⟨node, _, rest⟩
      dsimp only at rest
      split at rest
      · refine induction rest ((Finset.card_insert_le _ _).trans ?_)
        omega
      · exact induction rest fits

theorem fill_root {kept filled : Finset UInt32} {order : List UInt32} {id : UInt32}
    (run : model.fill kept order = some filled) (member : id ∈ order)
    (top : parentsOf model.nodes id = some none) : id ∈ filled ∨ nodeBudget ≤ filled.card := by
  induction order generalizing kept with
  | nil => cases member
  | cons other order induction =>
    rw [Model.fill] at run
    split at run
    · cases run
      exact .inr ‹_›
    · rcases Option.bind_eq_some_iff.mp run with ⟨node, found, rest⟩
      dsimp only at rest
      rcases List.mem_cons.mp member with rfl | member
      · have orphan : node.parent = 0 := by
          rw [parentsOf_some found, Option.some.injEq] at top
          exact up_eq_none.mp top
        split at rest
        · exact .inl (fill_mono rest (Finset.mem_insert_self _ _))
        · rename_i not
          have keeps : id ∈ kept := by
            by_contra absent
            exact not ⟨absent, .inl orphan⟩
          exact .inl (fill_mono rest keeps)
      · split at rest
        · exact induction rest member
        · exact induction rest member

theorem exists_leftOut {kept : Finset UInt32} {top id : UInt32}
    (above : Above (parentsOf model.nodes) top id) (keeps : top ∈ kept) (dropped : id ∉ kept) :
    ∃ up ∈ kept, ∃ child ∉ kept, parentsOf model.nodes child = some (some up) := by
  induction above with
  | refl => exact absurd keeps dropped
  | @child id parent link rest induction =>
    by_cases keepsParent : parent ∈ kept
    · exact ⟨parent, keepsParent, id, dropped, link⟩
    · exact induction keepsParent

def Model.unfocused (model : Model) : Prop :=
  ∀ id node, model.nodes.lookup id = some node → node.states &&& stateFocused = 0

theorem focus_none (unfocused : model.unfocused) {order : List UInt32}
    (present : ∀ id ∈ order, model.contains id) : model.focus order = some none := by
  induction order with
  | nil => rfl
  | cons id order induction =>
    rcases Option.isSome_iff_exists.mp (present id List.mem_cons_self) with ⟨node, found⟩
    rw [Model.focus, found]
    simp only [Option.bind_eq_bind, Option.bind_some, unfocused id node found]
    exact induction fun other member => present other (List.mem_cons_of_mem _ member)

theorem Publishes.exists_truncated {size : Int32 × Int32} {commit : Commit} {view : View}
    {order : List (UInt32 × Class)} {kept : Finset UInt32} (wellFormed : model.WellFormed)
    (publishes : Publishes model size now commit view order kept) (unfocused : model.unfocused)
    (crowded : nodeBudget < model.len) : ∃ id ∈ view.truncated, model.contains id := by
  rcases wellFormed.effective_some now with ⟨_, ordered, complete, _, all⟩
  rw [publishes.ordered] at ordered
  cases ordered
  have chosen := publishes.chosen
  rw [Model.choose, if_neg (by rw [List.length_map, complete]; omega),
    focus_none unfocused fun id => (mem_order_iff wellFormed publishes.ordered id).mp] at chosen
  simp only [Option.bind_eq_bind, Option.bind_some] at chosen
  have small := fill_card chosen (Nat.zero_le _)
  have dropped : ∃ id, model.contains id ∧ id ∉ kept := by
    by_contra everything
    simp only [not_exists, not_and, not_not] at everything
    have within : model.nodes.keys ⊆ kept := by
      intro id member
      exact everything id (contains_iff.mpr (mem_keys_iff.mp member))
    have cards := Finset.card_le_card within
    rw [← Model.len] at cards
    omega
  rcases dropped with ⟨id, present, dropped⟩
  rcases wellFormed.root_orphan present with ⟨named, orphan⟩
  have rooted : rootOf model.root = some model.root := rootOf_eq_some.mpr ⟨rfl, named⟩
  have top : model.root ∈ kept := by
    have counted := (mem_order_iff wellFormed publishes.ordered model.root).mpr
      (contains_iff.mpr (by rw [orphan]; rfl))
    rcases fill_root chosen counted orphan with keeps | spent
    · exact keeps
    · -- what fills the budget hangs under the root
      have some' : kept.Nonempty := Finset.card_pos.mp (by unfold nodeBudget at spent; omega)
      rcases some' with ⟨other, keeps⟩
      have above := wellFormed.tree.above_root rooted
        (contains_iff.mp (publishes.closed.present other keeps))
      induction above with
      | refl => exact keeps
      | child link rest induction => exact induction (publishes.closed.parent _ keeps _ link)
  rcases exists_leftOut (wellFormed.tree.above_root rooted (contains_iff.mp present)) top dropped
    with ⟨up, keeps, child, gone, link⟩
  have left : model.leftOut kept (order.map Prod.fst) ≠ [] := by
    apply List.ne_nil_of_mem (a := child)
    refine List.mem_flatMap.mpr ⟨up, List.mem_filter.mpr ⟨?_, by simpa using keeps⟩,
      List.mem_filter.mpr ⟨(wellFormed.tree.listed _ _).mpr link, by simpa using gone⟩⟩
    exact (mem_order_iff wellFormed publishes.ordered up).mpr (publishes.closed.present up keeps)
  rcases List.exists_mem_of_ne_nil _ (by
    rw [publishes.truncated, Ne, List.take_eq_nil_iff, not_or]
    exact ⟨by decide, left⟩ : view.truncated ≠ []) with ⟨listed, member⟩
  refine ⟨listed, member, ?_⟩
  rw [publishes.truncated] at member
  rcases List.mem_flatMap.mp (List.mem_of_mem_take member) with ⟨up', _, child'⟩
  rw [contains_iff, (wellFormed.tree.listed _ _).mp (List.mem_filter.mp child').1]
  rfl

theorem unfocused_updateAt (unfocused : model.unfocused) (id : UInt32) {update : Node → Node}
    (same : ∀ node, (update node).states = node.states) :
    { model with nodes := updateAt id update model.nodes }.unfocused := by
  intro other node found
  rw [lookup_updateAt] at found
  split at found
  · rcases Option.map_eq_some_iff.mp found with ⟨old, there, rfl⟩
    rw [same]
    exact unfocused id old there
  · exact unfocused other node found

theorem unfocused_hung (unfocused : model.unfocused) (id parent index : UInt32) :
    (model.hung id parent index).unfocused := by
  have added : { model with nodes := model.nodes.insert id (Node.new parent) }.unfocused := by
    intro other node found
    by_cases same : other = id
    · rw [same, Finmap.lookup_insert] at found
      cases found
      exact (by decide : (0 : UInt32) &&& stateFocused = 0)
    · rw [Finmap.lookup_insert_of_ne _ same] at found
      exact unfocused other node found
  exact unfocused_updateAt added parent fun _ => rfl

def fan (parent : UInt32) (ids : List UInt32) : List Call := ids.map (.addNode · parent 0)

theorem run_fan (ids : List UInt32) (wellFormed : model.WellFormed) (top : model.root ≠ 0)
    (unfocused : model.unfocused) (space : model.len + ids.length ≤ modelCap) (named : 0 ∉ ids)
    (distinct : ids.Nodup) (fresh : ∀ id ∈ ids, ¬model.contains id) :
    ∃ after, model.run (fan model.root ids) = some after ∧ after.WellFormed ∧
      after.unfocused ∧ after.root = model.root ∧ after.len = model.len + ids.length ∧
      after.sec = model.sec ∧ (model.dirtyStructural → after.dirtyStructural) := by
  induction ids generalizing model with
  | nil => exact ⟨model, rfl, wellFormed, unfocused, rfl, rfl, rfl, fun dirty => dirty⟩
  | cons id ids induction =>
    rw [List.length_cons] at space
    have nonzero : id ≠ 0 := fun zero => named (zero ▸ List.mem_cons_self)
    have absent : ¬model.contains id := fresh id List.mem_cons_self
    have hasParent : model.contains model.root := by
      rw [contains_iff, (wellFormed.tree.sole _).mpr (rootOf_eq_some.mpr ⟨rfl, top⟩)]
      rfl
    have shallow : model.depthOf model.root < maxDepth := by
      rw [wellFormed.depthOf_eq hasParent .refl]
      decide
    have called := addNode_after nonzero absent hasParent shallow (by omega) 0
    rcases wellFormed.call_after (.addNode id model.root 0) with ⟨grown, called', kept, _⟩
    rw [called] at called'
    cases called'
    have len := hung_len model top absent 0
    rcases induction kept top (unfocused_hung unfocused id model.root 0) (by rw [len]; omega)
        (fun member => named (List.mem_cons_of_mem _ member)) (List.nodup_cons.mp distinct).2
        (fun other member => by
          rw [hung_contains model _ _ top, not_or]
          refine ⟨?_, fresh other (List.mem_cons_of_mem _ member)⟩
          rintro rfl
          exact (List.nodup_cons.mp distinct).1 member) with
      ⟨after, run, ended, still, root, len', sec, dirty⟩
    refine ⟨after, ?_, ended, still, root, ?_, sec, fun _ => dirty rfl⟩
    · rw [fan, List.map_cons, run_cons, called]
      exact run
    · rw [len', len, List.length_cons]
      omega

theorem hides_of_lasting (wellFormed : model.WellFormed) (lasting : model.lasting model.root)
    (now : Instant) {id : UInt32} (present : model.contains id) : model.hides now id := by
  rcases wellFormed.effective_some now with ⟨order, ordered, _, distinct, all⟩
  rcases List.mem_map.mp ((all id).mpr (contains_iff.mp present)) with ⟨entry, member, rfl⟩
  have secret := effectiveFrom_induct (motive := fun stack order =>
    (∀ entry ∈ stack, model.classIn now entry.1 entry.2 = .secret) →
      ∀ entry ∈ order, entry.2 = .secret) nofun ?_ ?_ ordered
  · rw [hides_eq ordered, decide_eq_true_eq, classAt_eq_some distinct, ← secret ?_ entry member]
    · exact member
    · intro top first
      rw [List.mem_singleton.mp first]
      exact classIn_of_lasting lasting now _
  · exact fun _ _ _ _ _ induction stacked =>
      induction fun entry member => stacked entry (List.mem_cons_of_mem _ member)
  · intro other inherited stack order node found induction stacked entry member
    have here := stacked _ List.mem_cons_self
    rcases List.mem_cons.mp member with rfl | member
    · exact here
    · refine induction (fun entry pushed => ?_) entry member
      rcases List.mem_append.mp pushed with child | below
      · rcases List.mem_map.mp child with ⟨id, _, rfl⟩
        dsimp only at here ⊢
        rw [here, classIn_secret]
      · exact stacked entry (List.mem_cons_of_mem _ below)

theorem contains_rootOnly (sec : Secs) (ghostUntil : Option Instant) (id : UInt32) :
    (rootOnly sec ghostUntil).contains id ↔ id = 1 := by
  rw [contains_iff, rootOnly, parentsOf_insert 1 (Node.new 0) ∅]
  by_cases same : id = 1
  · simp [same]
  · rw [Function.update_of_ne same]
    simp [same, parentsOf]

theorem unfocused_rootOnly (sec : Secs) (ghostUntil : Option Instant) :
    (rootOnly sec ghostUntil).unfocused := by
  intro id node found
  have same : id = 1 :=
    (contains_rootOnly sec ghostUntil id).mp (by rw [Model.contains, found]; rfl)
  rw [same, rootOnly, Finmap.lookup_insert] at found
  cases found
  exact (by decide : (0 : UInt32) &&& stateFocused = 0)

def crowd : List UInt32 := idsFrom 2 4000

/-- A secret root with one child more than the budget has room for. -/
def overfull : List Call := [.setRoot 1, .setSensitivity 1 2] ++ fan 1 crowd

end EclipseOS.Abyss.Semantic
