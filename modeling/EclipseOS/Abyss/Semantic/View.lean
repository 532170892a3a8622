import EclipseOS.Abyss.Semantic.Depth

/-! # The committed view

What a commit publishes is the part of the model that the budget keeps, closed under
parents, with the classes it has in the model. -/

namespace EclipseOS.Abyss.Semantic

open Foundation PolicyEval

def View.tree (view : View) : Model :=
  { Model.new with
    nodes := view.nodes, root := view.root, sec := view.sec, tainted := view.tainted }

/-- The effective class of a node of the view: its own, its ancestors' and the table's. -/
def View.classOf (view : View) (id : UInt32) (now : Instant) : Option (Option Class) := do
  let order ← view.tree.effective now
  return (order.find? (·.1 = id)).map (·.2)

variable {model : Model}

/-! ## Classes -/

/-- The class of a node below one whose class is `inherited`. -/
def Model.classIn (model : Model) (now : Instant) (id : UInt32) (inherited : Class) : Class :=
  if model.tainted then .secret
  else inherited.max ((model.sec.lookup id).elim Class.private (·.local now))

section Order

variable {now : Instant} {id : UInt32} {inherited : Class} {stack order : List (UInt32 × Class)}

theorem effectiveFrom_skip (absent : model.nodes.lookup id = none) :
    effectiveFrom model now ((id, inherited) :: stack) = effectiveFrom model now stack := by
  rw [effectiveFrom, absent]

theorem effectiveFrom_visit {node : Node} (found : model.nodes.lookup id = some node) :
    effectiveFrom model now ((id, inherited) :: stack) =
      (effectiveFrom model now
        (node.children.map (·, model.classIn now id inherited) ++ stack)).map
          ((id, model.classIn now id inherited) :: ·) := by
  rw [effectiveFrom, found]
  simp only [Model.classIn]
  exact Option.map_eq_bind.symm

theorem effectiveFrom_induct {motive : List (UInt32 × Class) → List (UInt32 × Class) → Prop}
    (nil : motive [] [])
    (skip : ∀ id inherited stack order, model.nodes.lookup id = none →
      motive stack order → motive ((id, inherited) :: stack) order)
    (visit : ∀ id inherited stack order node, model.nodes.lookup id = some node →
      motive (node.children.map (·, model.classIn now id inherited) ++ stack) order →
        motive ((id, inherited) :: stack) ((id, model.classIn now id inherited) :: order))
    (ordered : effectiveFrom model now stack = some order) : motive stack order := by
  refine effectiveFrom.partial_correctness model now motive (fun rest induction stack order step => ?_)
    stack order ordered
  rcases stack with _ | ⟨⟨id, inherited⟩, stack⟩
  · cases step
    exact nil
  · cases found : model.nodes.lookup id with
    | none =>
      dsimp only at step
      rw [found] at step
      exact skip id inherited stack order found (induction stack order step)
    | some node =>
      dsimp only at step
      rw [found] at step
      rcases Option.bind_eq_some_iff.mp step with ⟨below, deeper, made⟩
      cases made
      exact visit id inherited stack below node found (induction _ below deeper)

theorem secret_of_own (ordered : effectiveFrom model now stack = some order)
    {entry : UInt32 × Class} (member : entry ∈ order)
    (own : ∀ inherited, model.classIn now entry.1 inherited = .secret) : entry.2 = .secret := by
  revert member
  refine effectiveFrom_induct (motive := fun _ order => entry ∈ order → entry.2 = .secret)
    nofun (fun _ _ _ _ _ induction => induction) ?_ ordered
  intro other inherited stack order node _ induction member
  rcases List.mem_cons.mp member with same | member
  · cases same
    exact own inherited
  · exact induction member

end Order

/-! ## What the budget keeps -/

/-- Nodes of the model, each with its parent. -/
structure Model.Closed (model : Model) (kept : Finset UInt32) : Prop where
  present : ∀ id ∈ kept, model.contains id
  parent : ∀ id ∈ kept, ∀ up, parentsOf model.nodes id = some (some up) → up ∈ kept

namespace Model.Closed

variable {kept : Finset UInt32}

theorem empty : model.Closed ∅ := ⟨nofun, nofun⟩

theorem insert (closed : model.Closed kept) {id : UInt32} (present : model.contains id)
    (under : ∀ up, parentsOf model.nodes id = some (some up) → up ∈ kept) :
    model.Closed (insert id kept) := by
  refine ⟨fun other member => ?_, fun other member up link => ?_⟩
  · rcases Finset.mem_insert.mp member with rfl | member
    · exact present
    · exact closed.present other member
  · apply Finset.mem_insert_of_mem
    rcases Finset.mem_insert.mp member with rfl | member
    · exact under up link
    · exact closed.parent other member up link

theorem fill (closed : model.Closed kept) {order : List UInt32} {filled : Finset UInt32}
    (run : model.fill kept order = some filled) : model.Closed filled := by
  induction order generalizing kept with
  | nil =>
    cases run
    exact closed
  | cons id order induction =>
    rw [Model.fill] at run
    split at run
    · cases run
      exact closed
    · rcases Option.bind_eq_some_iff.mp run with ⟨node, found, rest⟩
      dsimp only at rest
      split at rest
      · rename_i _ fits
        refine induction (closed.insert (by rw [Model.contains, found]; rfl) ?_) rest
        intro up link
        rw [parentsOf_some found, Option.some.injEq] at link
        rcases up_eq_some.mp link with ⟨rfl, named⟩
        exact fits.2.resolve_left named
      · exact induction closed rest

theorem pathUp {id : UInt32} {path : List UInt32} (run : model.pathUp id = some path) :
    model.Closed path.toFinset ∧ (id ≠ 0 → id ∈ path) := by
  refine Model.pathUp.partial_correctness model
    (fun id path => model.Closed path.toFinset ∧ (id ≠ 0 → id ∈ path)) ?_ id path run
  intro climb induction id path step
  split at step
  · rename_i zero
    cases step
    exact ⟨empty, fun named => absurd zero named⟩
  · rcases Option.bind_eq_some_iff.mp step with ⟨node, found, step⟩
    rcases Option.bind_eq_some_iff.mp step with ⟨above, climbed, made⟩
    cases made
    have rest := induction _ _ climbed
    refine ⟨?_, fun _ => List.mem_cons_self⟩
    rw [List.toFinset_cons]
    refine rest.1.insert (by rw [Model.contains, found]; rfl) fun up link => ?_
    rw [parentsOf_some found, Option.some.injEq] at link
    rcases up_eq_some.mp link with ⟨rfl, named⟩
    exact List.mem_toFinset.mpr (rest.2 named)

theorem subtree (wellFormed : model.WellFormed) {focus : UInt32} (closed : model.Closed kept)
    (focused : focus ∈ kept) {left : Nat} {stack below : List UInt32}
    (stacked : ∀ id ∈ stack, id = focus ∨ ∃ up ∈ kept, parentsOf model.nodes id = some (some up))
    (run : model.subtree focus left stack = some below) :
    model.Closed (kept ∪ below.toFinset) := by
  induction left generalizing kept stack below with
  | zero =>
    cases run
    simpa using closed
  | succ left induction =>
    cases stack with
    | nil =>
      cases run
      simpa using closed
    | cons id stack =>
      rw [Model.subtree] at run
      rcases Option.bind_eq_some_iff.mp run with ⟨node, found, run⟩
      rcases Option.bind_eq_some_iff.mp run with ⟨rest, deeper, made⟩
      have grown : model.Closed (Insert.insert id kept) := by
        refine closed.insert (by rw [Model.contains, found]; rfl) fun up link => ?_
        rcases stacked id List.mem_cons_self with rfl | ⟨up', kept', link'⟩
        · exact closed.parent _ focused up link
        · rw [link] at link'
          cases link'
          exact kept'
      have stacked' : ∀ other ∈ node.children ++ stack,
          other = focus ∨ ∃ up ∈ Insert.insert id kept,
            parentsOf model.nodes other = some (some up) := by
        intro other member
        rcases List.mem_append.mp member with child | member
        · refine .inr ⟨id, Finset.mem_insert_self .., ?_⟩
          rwa [← wellFormed.tree.listed, childrenOf_some found]
        · rcases stacked other (List.mem_cons_of_mem _ member) with same | ⟨up, kept', link⟩
          · exact .inl same
          · exact .inr ⟨up, Finset.mem_insert_of_mem kept', link⟩
      have all := induction grown (Finset.mem_insert_of_mem focused) stacked' deeper
      by_cases same : id = focus
      · rw [if_pos same] at made
        cases made
        rwa [same, Finset.insert_eq_self.mpr focused] at all
      · rw [if_neg same] at made
        cases made
        rwa [List.toFinset_cons, Finset.union_insert, ← Finset.insert_union]

theorem choose (wellFormed : model.WellFormed) {order : List UInt32}
    (present : ∀ id ∈ order, model.contains id) (complete : ∀ id, model.contains id → id ∈ order)
    (run : model.choose order = some kept) : model.Closed kept := by
  rw [Model.choose] at run
  split at run
  · cases run
    refine ⟨fun id member => present id (List.mem_toFinset.mp member), fun id member up link => ?_⟩
    exact List.mem_toFinset.mpr (complete up
      (contains_iff.mpr (wellFormed.tree.parent_present link)))
  · rcases Option.bind_eq_some_iff.mp run with ⟨focused, focus, run⟩
    cases focused with
    | none => exact empty.fill run
    | some focused =>
      rcases Option.bind_eq_some_iff.mp run with ⟨path, climbed, run⟩
      rcases Option.bind_eq_some_iff.mp run with ⟨under, below, run⟩
      have present' : ∀ id ∈ order, (parentsOf model.nodes id).isSome :=
        fun id member => contains_iff.mp (present id member)
      rcases WellFormed.focus_some present' with ⟨focused', focus', among⟩
      rw [focus] at focus'
      cases focus'
      have named := wellFormed.ne_zero (present focused (among focused rfl))
      have up := pathUp climbed
      have first : focused ∈ path.toFinset := List.mem_toFinset.mpr (up.2 named)
      refine (subtree wellFormed up.1 first ?_ below).fill run
      intro id member
      exact .inl (List.mem_singleton.mp member)

end Model.Closed

/-! ## What is published -/

def Node.published (node : Node) (size : Int32 × Int32) (kept : Finset UInt32) : Node :=
  { node with children := node.children.filter (· ∈ kept) }.clampedTo size

@[simp] theorem clampedTo_children (node : Node) (size : Int32 × Int32) :
    (node.clampedTo size).children = node.children := by
  unfold Node.clampedTo
  split <;> rfl

@[simp] theorem published_children (node : Node) (size : Int32 × Int32) (kept : Finset UInt32) :
    (node.published size kept).children = node.children.filter (· ∈ kept) := by
  rw [Node.published, clampedTo_children]

@[simp] theorem published_parent (node : Node) (size : Int32 × Int32) (kept : Finset UInt32) :
    (node.published size kept).parent = node.parent := by
  unfold Node.published Node.clampedTo
  split <;> rfl

/-- The children left out under a node that is kept, in document order. -/
def Model.leftOut (model : Model) (kept : Finset UInt32) (order : List UInt32) : List UInt32 :=
  (order.filter (· ∈ kept)).flatMap fun id =>
    (childrenOf model.nodes id).filter (· ∉ kept)

/-- What the publishing loop adds to what it had. -/
structure Published.After (model : Model) (size : Int32 × Int32) (kept : Finset UInt32)
    (order : List UInt32) (before after : Published) : Prop where
  ids : after.ids = before.ids ++ order.filter (· ∈ kept)
  truncated : after.truncated = (before.truncated ++ model.leftOut kept order).take truncatedMax
  nodes : ∀ id, after.nodes.lookup id =
    if id ∈ order ∧ id ∈ kept then (model.nodes.lookup id).map (·.published size kept)
    else before.nodes.lookup id

theorem take_append_take {α : Type} (n : Nat) (first second rest : List α)
    (short : first.length ≤ n) :
    (first ++ second.take (n - first.length) ++ rest).take n = (first ++ (second ++ rest)).take n := by
  simp only [List.append_assoc, List.take_append, List.take_take, Nat.min_self, List.length_take]
  congr 3
  omega

theorem publish_after {size : Int32 × Int32} {kept : Finset UInt32}
    {order : List (UInt32 × Class)} {before after : Published}
    (run : model.publish size kept before order = some after)
    (short : before.truncated.length ≤ truncatedMax) :
    Published.After model size kept (order.map Prod.fst) before after := by
  induction order generalizing before with
  | nil =>
    cases run
    exact ⟨by simp, by simp [Model.leftOut, List.take_of_length_le short], by simp⟩
  | cons entry order induction =>
    rcases entry with ⟨id, «class»⟩
    rw [Model.publish] at run
    split at run
    · rename_i dropped
      have rest := induction run short
      refine ⟨?_, ?_, fun other => ?_⟩
      · simpa [dropped] using rest.ids
      · simpa [dropped, Model.leftOut] using rest.truncated
      · rw [rest.nodes]
        by_cases same : other = id
        · simp [same, dropped]
        · simp only [List.map_cons, List.mem_cons, same, false_or]
    · rename_i keeps
      rw [not_not] at keeps
      rcases Option.bind_eq_some_iff.mp run with ⟨node, found, run⟩
      have fits : (before.truncated ++ (node.children.filter (· ∉ kept)).take
          (truncatedMax - before.truncated.length)).length ≤ truncatedMax := by
        rw [List.length_append, List.length_take]
        omega
      have rest := induction run fits
      refine ⟨?_, ?_, fun other => ?_⟩
      · simpa [keeps] using rest.ids
      · rw [rest.truncated, take_append_take truncatedMax _ _ _ short]
        simp [Model.leftOut, keeps, childrenOf_some found]
      · rw [rest.nodes]
        by_cases same : other = id
        · have counted : id ∈ ((id, «class») :: order).map Prod.fst := List.mem_cons_self
          rw [same, if_pos (And.intro counted keeps), Finmap.lookup_insert, found]
          split <;> rfl
        · rw [Finmap.lookup_insert_of_ne _ same]
          simp only [List.map_cons, List.mem_cons, same, false_or]

/-- What a commit that publishes makes of the model: the part of it that the budget
keeps, in the model's order. -/
structure Publishes (model : Model) (size : Int32 × Int32) (now : Instant) (commit : Commit)
    (view : View) (order : List (UInt32 × Class)) (kept : Finset UInt32) : Prop where
  ordered : model.effective now = some order
  chosen : model.choose (order.map Prod.fst) = some kept
  closed : model.Closed kept
  sec : view.sec = model.sec
  tainted : view.tainted = model.tainted
  root : view.root = model.root
  ids : view.order = (order.map Prod.fst).filter (· ∈ kept)
  truncated : view.truncated = (model.leftOut kept (order.map Prod.fst)).take truncatedMax
  nodes : ∀ id, view.nodes.lookup id =
    if id ∈ kept then (model.nodes.lookup id).map (·.published size kept) else none
  complete : view.complete = decide (kept.card = order.length)
  generation : view.generation =
    if model.dirtyStructural then model.generation + 1 else model.generation
  valueRev : view.valueRev =
    if model.dirtyStructural then model.valueRev else model.valueRev + 1

theorem mem_order_iff (wellFormed : model.WellFormed) {now : Instant}
    {order : List (UInt32 × Class)} (ordered : model.effective now = some order) (id : UInt32) :
    id ∈ order.map Prod.fst ↔ model.contains id := by
  rcases wellFormed.effective_some now with ⟨order', ordered', _, _, all⟩
  rw [ordered] at ordered'
  cases ordered'
  rw [all, contains_iff]

theorem publishes (wellFormed : model.WellFormed) {size : Int32 × Int32} {now : Instant}
    {commit : Commit} {view : View} {after : Model}
    (committed : model.commit size now = some (.ok (some (commit, view)) after)) :
    ∃ order kept, Publishes model size now commit view order kept := by
  rw [Model.commit] at committed
  split at committed
  · cases committed
  · split at committed
    · cases committed
    · rcases Option.bind_eq_some_iff.mp committed with ⟨order, ordered, committed⟩
      split at committed
      · cases committed
      · rcases Option.bind_eq_some_iff.mp committed with ⟨⟨published, left⟩, made, committed⟩
        cases committed
        rcases Option.bind_eq_some_iff.mp made with ⟨kept, chosen, made⟩
        rcases Option.bind_eq_some_iff.mp made with ⟨done, ran, made⟩
        cases made
        have published := publish_after ran (Nat.zero_le _)
        have closed : model.Closed kept :=
          Model.Closed.choose wellFormed (fun id => (mem_order_iff wellFormed ordered id).mp)
            (fun id => (mem_order_iff wellFormed ordered id).mpr) chosen
        refine ⟨order, kept, ordered, chosen, closed, rfl, rfl, rfl, ?_, ?_, fun id => ?_, rfl, ?_, ?_⟩
        · simpa using published.ids
        · simpa using published.truncated
        · rw [published.nodes, Finmap.lookup_empty]
          by_cases keeps : id ∈ kept
          · have counted := (mem_order_iff wellFormed ordered id).mpr (closed.present id keeps)
            rw [if_pos keeps, if_pos ⟨counted, keeps⟩]
          · rw [if_neg keeps, if_neg fun both => keeps both.2]
        · show (if model.dirtyStructural then _ else _ : Model).generation = _
          split <;> rfl
        · show (if model.dirtyStructural then _ else _ : Model).valueRev = _
          split <;> rfl

/-- The view's document order is the kept part of the model's, each node with the
class it has there. -/
theorem Publishes.effective {size : Int32 × Int32} {now later : Instant} {commit : Commit}
    {view : View} {order order' : List (UInt32 × Class)} {kept : Finset UInt32}
    (wellFormed : model.WellFormed)
    (publishes : Publishes model size now commit view order kept)
    (ordered : model.effective later = some order') :
    view.tree.effective later = some (order'.filter (·.1 ∈ kept)) := by
  have sameClass (id : UInt32) (inherited : Class) :
      view.tree.classIn later id inherited = model.classIn later id inherited := by
    show (if view.tainted then Class.secret else inherited.max
      ((view.sec.lookup id).elim Class.private (·.local later))) = _
    rw [publishes.tainted, publishes.sec]
    rfl
  have walk : effectiveFrom view.tree later ([(model.root, Class.private)].filter (·.1 ∈ kept)) =
      some (order'.filter (·.1 ∈ kept)) := by
    refine effectiveFrom_induct (motive := fun stack order =>
      effectiveFrom view.tree later (stack.filter (·.1 ∈ kept)) =
        some (order.filter (·.1 ∈ kept))) ?_ ?_ ?_ ordered
    · rw [List.filter_nil, effectiveFrom]
    · intro id inherited stack order absent induction
      have dropped : id ∉ kept := by
        intro keeps
        have present := publishes.closed.present id keeps
        rw [Model.contains, absent] at present
        cases present
      simpa [dropped] using induction
    · intro id inherited stack order node found induction
      by_cases keeps : id ∈ kept
      · have copied : view.tree.nodes.lookup id = some (node.published size kept) := by
          show view.nodes.lookup id = _
          rw [publishes.nodes, if_pos keeps, found]
          rfl
        have below : (node.published size kept).children.map
              (·, model.classIn later id inherited) ++ stack.filter (·.1 ∈ kept) =
            (node.children.map (·, model.classIn later id inherited) ++ stack).filter
              (·.1 ∈ kept) := by
          rw [published_children, List.filter_append, List.filter_map]
          rfl
        rw [List.filter_cons_of_pos (by simpa using keeps), effectiveFrom_visit copied, sameClass,
          below, induction, List.filter_cons_of_pos (by simpa using keeps)]
        rfl
      · have none : (node.children.map (·, model.classIn later id inherited)).filter
            (·.1 ∈ kept) = [] := by
          simp only [List.filter_eq_nil_iff, List.mem_map, decide_eq_true_eq]
          rintro _ ⟨child, member, rfl⟩ keepsChild
          refine keeps (publishes.closed.parent child keepsChild id ?_)
          rwa [← wellFormed.tree.listed, childrenOf_some found]
        rw [List.filter_append, none, List.nil_append] at induction
        rw [List.filter_cons_of_neg (by simpa using keeps), induction,
          List.filter_cons_of_neg (by simpa using keeps)]
  rw [Model.effective]
  show effectiveFrom view.tree later [(view.root, Class.private)] = _
  rw [publishes.root]
  by_cases keeps : model.root ∈ kept
  · rwa [List.filter_cons_of_pos (by simpa using keeps), List.filter_nil] at walk
  · have absent : view.tree.nodes.lookup model.root = none := by
      show view.nodes.lookup model.root = none
      rw [publishes.nodes, if_neg keeps]
    rw [List.filter_cons_of_neg (by simpa using keeps), List.filter_nil] at walk
    rw [effectiveFrom_skip absent, walk]

/-! ## Commits that publish everything -/

theorem commit_publishes (wellFormed : model.WellFormed) (dirty : model.dirty)
    (named : model.root ≠ 0) (size : Int32 × Int32) (now : Instant) :
    ∃ commit view after, model.commit size now = some (.ok (some (commit, view)) after) := by
  rcases wellFormed.effective_some now with ⟨order, ordered, complete, _, present⟩
  rcases Model.WellFormed.commitOrder_some wellFormed (fun id => (present id).mp) size with
    ⟨⟨commit, view⟩, after, committed, _⟩
  refine ⟨commit, view, after, ?_⟩
  rw [Model.commit, if_neg (not_not.mpr dirty), if_neg fun both => named both.1]
  simp [ordered, complete, committed]

theorem root_publishes : ∃ model commit view after, Model.new.run [.setRoot 1] = some model ∧
    model.commit (100, 100) 0 = some (.ok (some (commit, view)) after) := by
  rcases wellFormed_new.run [.setRoot 1] with ⟨model, run, wellFormed⟩
  have dirty : model.dirty := by
    cases run
    rfl
  have named : model.root ≠ 0 := by
    cases run
    decide
  rcases commit_publishes wellFormed dirty named (100, 100) 0 with ⟨commit, view, after, committed⟩
  exact ⟨model, commit, view, after, run, committed⟩

theorem Publishes.mem_kept {size : Int32 × Int32} {now : Instant} {commit : Commit} {view : View}
    {order : List (UInt32 × Class)} {kept : Finset UInt32} (wellFormed : model.WellFormed)
    (publishes : Publishes model size now commit view order kept) (fits : model.len ≤ nodeBudget)
    {id : UInt32} (present : model.contains id) : id ∈ kept := by
  rcases wellFormed.effective_some now with ⟨order', ordered, complete, _, all⟩
  rw [publishes.ordered] at ordered
  cases ordered
  have chosen := publishes.chosen
  rw [Model.choose, List.length_map, complete, if_pos fits] at chosen
  cases chosen
  exact List.mem_toFinset.mpr ((all id).mpr (contains_iff.mp present))

end EclipseOS.Abyss.Semantic
