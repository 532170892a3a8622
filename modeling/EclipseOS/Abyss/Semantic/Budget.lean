import EclipseOS.Abyss.Semantic.Snapshot

/-! # The node budget of a published view

A model larger than the budget keeps the way from its focused node to the root, the
focused node's subtree up to half the budget, and then what document order still has
room for. The way alone may take more than there is. -/

namespace EclipseOS.Abyss.Semantic

open Foundation PolicyEval

open Foundation.Tree (linksUnder childrenUnder)

/-- The first node of the document order whose states have the focus bit. -/
def Model.focused (model : Model) (now : Instant) : Option UInt32 := do
  let order ← model.effective now
  (model.focus (order.map Prod.fst)).join

open Classical in
noncomputable def Model.line (model : Model) (id : UInt32) : Finset UInt32 :=
  model.nodes.keys.filter (Above (parentsOf model.nodes) · id)

open Classical in
noncomputable def Model.family (model : Model) (id : UInt32) : Finset UInt32 :=
  model.nodes.keys.filter (Above (parentsOf model.nodes) id)

/-- The nodes set aside for the focus: its way to the root, and what is below it up
to half the budget, itself counted. -/
noncomputable def Model.reserved (model : Model) (now : Instant) : Nat :=
  (model.focused now).elim 0 fun focus =>
    (model.line focus).card + (min (nodeBudget / 2) (model.family focus).card - 1)

/-- A view within the budget, all of it under its root, with the way from the model's
focused node to the root. -/
structure View.Rounded (view : View) (model : Model) (now : Instant) : Prop where
  fits : view.nodes.keys.card ≤ nodeBudget
  under : ∀ id ∈ view.nodes.keys, ∃ links, Climbs (parentsOf view.nodes) view.root id links
  focused : ∀ focus, model.focused now = some focus → model.line focus ⊆ view.nodes.keys

variable {model : Model}

/-! ## The way up and the subtree -/

section Reserved

variable {focus : UInt32}

theorem mem_line (wellFormed : model.WellFormed) (present : model.contains focus) (id : UInt32) :
    id ∈ model.line focus ↔ Above (parentsOf model.nodes) id focus := by
  classical
  rw [Model.line, Finset.mem_filter, and_iff_right_iff_imp, mem_keys_iff]
  exact (wellFormed.tree.rooted focus (contains_iff.mp present)).above_present

theorem mem_family (present : model.contains focus) (id : UInt32) :
    id ∈ model.family focus ↔ Above (parentsOf model.nodes) focus id := by
  classical
  rw [Model.family, Finset.mem_filter, and_iff_right_iff_imp, mem_keys_iff]
  intro above
  cases above with
  | refl => exact contains_iff.mp present
  | child link =>
    rw [link]
    rfl

theorem line_card (wellFormed : model.WellFormed) (present : model.contains focus) {links : Nat}
    (climbs : Climbs (parentsOf model.nodes) model.root focus links) :
    (model.line focus).card = links + 1 :=
  climbs.card_line (wellFormed.root_orphan present).2 (mem_line wellFormed present)

theorem pathUp_line (wellFormed : model.WellFormed) {path : List UInt32}
    (run : model.pathUp focus = some path) (present : model.contains focus) :
    path.toFinset = model.line focus := by
  ext id
  rw [List.mem_toFinset, mem_line wellFormed present]
  refine (Model.pathUp.partial_correctness model (fun focus path => (focus = 0 → path = []) ∧
    (model.contains focus → (id ∈ path ↔ Above (parentsOf model.nodes) id focus)))
    ?_ focus path run).2 present
  intro climb induction focus path step
  refine ⟨fun zero => ?_, fun present => ?_⟩
  · rw [if_pos zero] at step
    cases step
    rfl
  · rw [if_neg (wellFormed.ne_zero present)] at step
    rcases Option.bind_eq_some_iff.mp step with ⟨node, found, step⟩
    rcases Option.bind_eq_some_iff.mp step with ⟨rest, climbed, made⟩
    cases made
    have link := parentsOf_some found
    have above := induction _ _ climbed
    rw [List.mem_cons]
    by_cases top : node.parent = 0
    · rw [above.1 top, up_eq_none.mpr top] at *
      constructor
      · intro member
        rw [member.resolve_right List.not_mem_nil]
        exact .refl
      · intro above
        cases above with
        | refl => exact .inl rfl
        | child link' =>
          rw [link] at link'
          cases link'
    · rw [up_eq_some.mpr ⟨rfl, top⟩] at link
      rw [above.2 (contains_iff.mpr (wellFormed.tree.parent_present link))]
      constructor
      · intro higher
        rcases higher with same | higher
        · exact same ▸ .refl
        · exact .child link higher
      · intro higher
        cases higher with
        | refl => exact .inl rfl
        | child link' rest =>
          rw [link] at link'
          cases link'
          exact .inr rest

/-- The walk under the focus goes on from what it has seen until it has counted what
was left or there is nothing more. -/
theorem subtree_seen (wellFormed : model.WellFormed) (present : model.contains focus) {left : Nat}
    {stack under : List UInt32} {seen : Finset UInt32}
    (frontier : Frontier (linksUnder (parentsOf model.nodes) focus)
      (childrenUnder (parentsOf model.nodes) (childrenOf model.nodes) focus) (some focus)
        seen stack)
    (run : model.subtree focus left stack = some under) :
    ∃ wider stack', Frontier (linksUnder (parentsOf model.nodes) focus)
        (childrenUnder (parentsOf model.nodes) (childrenOf model.nodes) focus) (some focus)
        wider stack' ∧
      seen ⊆ wider ∧ under.toFinset = (wider \ seen).erase focus ∧
        wider.card ≤ seen.card + left ∧ (stack' = [] ∨ wider.card = seen.card + left) := by
  induction left generalizing stack under seen with
  | zero =>
    cases run
    exact ⟨seen, stack, frontier, subset_rfl, by simp, Nat.le_refl _, .inr rfl⟩
  | succ left induction =>
    cases stack with
    | nil =>
      cases run
      exact ⟨seen, [], frontier, subset_rfl, by simp, Nat.le_add_right .., .inl rfl⟩
    | cons id stack =>
      rw [Model.subtree] at run
      rcases Option.bind_eq_some_iff.mp run with ⟨node, found, run⟩
      rcases Option.bind_eq_some_iff.mp run with ⟨rest, deeper, made⟩
      have above : Above (parentsOf model.nodes) focus id :=
        Tree.linksUnder_isSome.mp (frontier.present id (.inr List.mem_cons_self))
      have children : childrenUnder (parentsOf model.nodes) (childrenOf model.nodes) focus id =
          node.children := by
        rw [Tree.childrenUnder, if_pos above, childrenOf_some found]
      have fresh : id ∉ seen := frontier.fresh id List.mem_cons_self
      rcases induction (frontier.visit (wellFormed.tree.under (contains_iff.mp present))
          (by rw [children])) deeper with ⟨wider, stack', frontier', grown, counted, few, all⟩
      have member : id ∈ wider := grown (Finset.mem_insert_self _ _)
      rw [Finset.card_insert_of_notMem fresh] at few all
      refine ⟨wider, stack', frontier', (Finset.subset_insert _ _).trans grown, ?_,
        by omega, all.imp_right fun full => by omega⟩
      by_cases same : id = focus
      · rw [if_pos same] at made
        cases made
        rw [counted, same]
        ext other
        simp only [Finset.mem_erase, Finset.mem_sdiff, Finset.mem_insert]
        tauto
      · rw [if_neg same] at made
        cases made
        rw [List.toFinset_cons, counted]
        ext other
        simp only [Finset.mem_erase, Finset.mem_sdiff, Finset.mem_insert]
        by_cases here : other = id
        · simp [here, same, member, fresh]
        · tauto

theorem subtree_family (wellFormed : model.WellFormed) (present : model.contains focus)
    {left : Nat} {under : List UInt32} (some' : 0 < left)
    (run : model.subtree focus left [focus] = some under) :
    under.toFinset ⊆ (model.family focus).erase focus ∧
      under.toFinset.card = min left (model.family focus).card - 1 := by
  have tree := wellFormed.tree.under (contains_iff.mp present)
  rcases subtree_seen wellFormed present (Frontier.start tree rfl) run with
    ⟨seen, stack, frontier, _, counted, few, all⟩
  have within : seen ⊆ model.family focus := by
    intro id member
    rw [mem_family present]
    exact Tree.linksUnder_isSome.mp (frontier.present id (.inl member))
  rw [Finset.sdiff_empty] at counted
  rw [Finset.card_empty, Nat.zero_add] at few all
  have size : seen.card = min left (model.family focus).card := by
    have most := Finset.card_le_card within
    rcases all with ended | full
    · subst ended
      have whole : seen = model.family focus := by
        ext id
        rw [frontier.finished tree id, Tree.linksUnder_isSome, mem_family present]
      rw [whole] at few ⊢
      omega
    · omega
  have first : focus ∈ seen := by
    have founder : 0 < (model.family focus).card :=
      Finset.card_pos.mpr ⟨focus, (mem_family present focus).mpr .refl⟩
    rcases Finset.card_pos.mp (by omega : 0 < seen.card) with ⟨id, member⟩
    exact frontier.root_mem tree rfl member
  refine ⟨?_, ?_⟩
  · rw [counted]
    exact Finset.erase_subset_erase _ within
  · rw [counted, Finset.card_erase_of_mem first, size]

theorem line_disjoint (wellFormed : model.WellFormed) (present : model.contains focus) :
    Disjoint (model.line focus) ((model.family focus).erase focus) := by
  rw [Finset.disjoint_left]
  intro id higher lower
  rw [mem_line wellFormed present] at higher
  rw [Finset.mem_erase, mem_family present] at lower
  rcases lower with ⟨different, below⟩
  cases below with
  | refl => exact different rfl
  | child link rest =>
    have rooted := wellFormed.tree.rooted id (by rw [link]; rfl)
    exact rooted.not_above_parent link (higher.trans rest)

theorem reserved_card (wellFormed : model.WellFormed) (present : model.contains focus)
    {path under : List UInt32} (climbed : model.pathUp focus = some path)
    (below : model.subtree focus (nodeBudget / 2) [focus] = some under) :
    (path.toFinset ∪ under.toFinset).card =
      (model.line focus).card + (min (nodeBudget / 2) (model.family focus).card - 1) := by
  have kept := subtree_family wellFormed present (by decide) below
  rw [pathUp_line wellFormed climbed present, Finset.card_union_of_disjoint, kept.2]
  exact (line_disjoint wellFormed present).mono_right kept.1

end Reserved

/-! ## What is kept -/

section Kept

variable {size : Int32 × Int32} {now : Instant} {commit : Commit} {view : View}
  {order : List (UInt32 × Class)} {kept : Finset UInt32}

theorem fill_card_iff {start filled : Finset UInt32} {order : List UInt32}
    (run : model.fill start order = some filled) :
    filled.card ≤ nodeBudget ↔ start.card ≤ nodeBudget :=
  ⟨(Finset.card_le_card (fill_mono run)).trans, fill_card run⟩

theorem Publishes.focus (publishes : Publishes model size now commit view order kept) :
    model.focused now = (model.focus (order.map Prod.fst)).join := by
  rw [Model.focused, publishes.ordered]
  rfl

theorem Publishes.len (wellFormed : model.WellFormed)
    (publishes : Publishes model size now commit view order kept) : order.length = model.len := by
  rcases wellFormed.effective_some now with ⟨_, ordered, complete, _⟩
  rw [publishes.ordered] at ordered
  cases ordered
  exact complete

theorem Publishes.focused_present (wellFormed : model.WellFormed)
    (publishes : Publishes model size now commit view order kept) {focus : UInt32}
    (focused : model.focused now = some focus) : model.contains focus := by
  have present (id : UInt32) (member : id ∈ order.map Prod.fst) : model.contains id :=
    (mem_order_iff wellFormed publishes.ordered id).mp member
  rcases Model.WellFormed.focus_some fun id member => contains_iff.mp (present id member) with
    ⟨_, found, among⟩
  rw [publishes.focus, found] at focused
  exact present focus (among focus focused)

theorem Publishes.set_aside (wellFormed : model.WellFormed)
    (publishes : Publishes model size now commit view order kept) {focus : UInt32}
    (crowded : ¬model.len ≤ nodeBudget) (focused : model.focused now = some focus) :
    ∃ start, start.card = model.reserved now ∧ model.line focus ⊆ start ∧
      model.fill start (order.map Prod.fst) = some kept := by
  have present := publishes.focused_present wellFormed focused
  have chosen := publishes.chosen
  rw [Model.choose, List.length_map, publishes.len wellFormed, if_neg crowded] at chosen
  rcases Option.bind_eq_some_iff.mp chosen with ⟨found, focus', chosen⟩
  have same : found = some focus := by rw [← focused, publishes.focus, focus', Option.join_some]
  cases same
  rcases Option.bind_eq_some_iff.mp chosen with ⟨path, climbed, chosen⟩
  rcases Option.bind_eq_some_iff.mp chosen with ⟨under, below, chosen⟩
  refine ⟨path.toFinset ∪ under.toFinset, ?_, ?_, chosen⟩
  · rw [reserved_card wellFormed present climbed below, Model.reserved, focused]
    rfl
  · rw [pathUp_line wellFormed climbed present]
    exact Finset.subset_union_left

theorem Publishes.card_iff (wellFormed : model.WellFormed)
    (publishes : Publishes model size now commit view order kept) :
    kept.card ≤ nodeBudget ↔ model.len ≤ nodeBudget ∨ model.reserved now ≤ nodeBudget := by
  by_cases fits : model.len ≤ nodeBudget
  · refine iff_of_true ?_ (.inl fits)
    have chosen := publishes.chosen
    rw [Model.choose, List.length_map, publishes.len wellFormed, if_pos fits] at chosen
    cases chosen
    apply (List.toFinset_card_le _).trans
    rwa [List.length_map, publishes.len wellFormed]
  · rw [or_iff_right fits]
    cases focused : model.focused now with
    | none =>
      have chosen := publishes.chosen
      rw [Model.choose, List.length_map, publishes.len wellFormed, if_neg fits] at chosen
      rcases Option.bind_eq_some_iff.mp chosen with ⟨found, focus, chosen⟩
      rw [publishes.focus, focus, Option.join_some] at focused
      cases focused
      rw [fill_card_iff chosen, Model.reserved, publishes.focus, focus]
      rfl
    | some focus =>
      rcases publishes.set_aside wellFormed fits focused with ⟨start, card, _, run⟩
      rw [fill_card_iff run, card]

theorem Publishes.line_kept (wellFormed : model.WellFormed)
    (publishes : Publishes model size now commit view order kept) {focus : UInt32}
    (focused : model.focused now = some focus) : model.line focus ⊆ kept := by
  by_cases fits : model.len ≤ nodeBudget
  · intro id member
    classical
    have there : id ∈ model.nodes.keys := (Finset.mem_filter.mp member).1
    exact publishes.mem_kept wellFormed fits (contains_iff.mpr (mem_keys_iff.mp there))
  · rcases publishes.set_aside wellFormed fits focused with ⟨start, _, holds, run⟩
    exact holds.trans (fill_mono run)

theorem Publishes.keys (publishes : Publishes model size now commit view order kept) :
    view.nodes.keys = kept := by
  ext id
  rw [Finmap.mem_keys, ← Finmap.lookup_isSome, publishes.nodes]
  split
  · rename_i member
    refine iff_of_true ?_ member
    rw [Option.isSome_map]
    exact publishes.closed.present id member
  · rename_i dropped
    exact iff_of_false nofun dropped

theorem Publishes.parents (publishes : Publishes model size now commit view order kept)
    {id : UInt32} (member : id ∈ kept) :
    parentsOf view.nodes id = parentsOf model.nodes id := by
  rw [parentsOf, publishes.nodes, if_pos member, Option.map_map, parentsOf]
  congr 1
  funext node
  exact congrArg (fun parent => if parent = 0 then none else some parent)
    (published_parent node size kept)

theorem Publishes.climbs (wellFormed : model.WellFormed)
    (publishes : Publishes model size now commit view order kept) {id : UInt32}
    (member : id ∈ kept) : ∃ links, Climbs (parentsOf view.nodes) view.root id links := by
  rcases wellFormed.climbs (publishes.closed.present id member) with ⟨links, climbs⟩
  refine ⟨links, ?_⟩
  rw [publishes.root]
  induction climbs with
  | refl => exact .refl
  | child link rest induction =>
    refine .child ?_ (induction (publishes.closed.parent _ member _ link))
    rw [publishes.parents member, link]

theorem Publishes.rounded_iff (wellFormed : model.WellFormed)
    (publishes : Publishes model size now commit view order kept) :
    view.Rounded model now ↔ model.len ≤ nodeBudget ∨ model.reserved now ≤ nodeBudget := by
  rw [← publishes.card_iff wellFormed, ← publishes.keys]
  refine ⟨View.Rounded.fits, fun fits => ⟨fits, fun id member => ?_, fun focus focused => ?_⟩⟩
  · rw [publishes.keys] at member
    exact publishes.climbs wellFormed member
  · rw [publishes.keys]
    exact publishes.line_kept wellFormed focused

end Kept

/-! ## Trees that are not too deep -/

/-- In a model whose nodes are all within `maxDepth` of the root there is room for what
is set aside. -/
theorem reserved_of_shallow (wellFormed : model.WellFormed) (shallow : model.Shallow)
    {now : Instant} (present : ∀ focus, model.focused now = some focus → model.contains focus) :
    model.reserved now ≤ nodeBudget := by
  rw [Model.reserved]
  cases focused : model.focused now with
  | none => exact Nat.zero_le _
  | some focus =>
    have there := present focus focused
    rcases shallow focus there with ⟨links, bound, climbs⟩
    show (model.line focus).card + _ ≤ _
    rw [line_card wellFormed there climbs]
    have bounds : maxDepth = 512 ∧ nodeBudget = 4000 := ⟨rfl, rfl⟩
    omega

def Model.rehung (model : Model) (id newParent index : UInt32) : Model :=
  { model with
    nodes := updateAt newParent (withChildren (insertChild index id))
      (updateAt id (fun node => { node with parent := newParent })
        (updateAt (model.parentOr0 id) (withChildren (·.filter (· ≠ id))) model.nodes))
    dirtyStructural := true }

section Rehung

variable {id newParent : UInt32}

theorem moveNode_after (moves : model.moves id newParent) (index : UInt32) :
    (Call.moveNode id newParent index).after model = some (model.rehung id newParent index) := by
  have request : (Call.moveNode id newParent index).edit =
    some (moveNode id newParent index).done := rfl
  rw [Model.WellFormed.after_edit request, Model.WellFormed.leaves_done]
  simp only [Model.moves, Bool.and_eq_true, decide_eq_true_eq] at moves
  rcases moves with ⟨⟨⟨⟨present, hasParent⟩, notRoot⟩, apart⟩, room⟩
  rcases Option.isSome_iff_exists.mp present with ⟨node, found⟩
  simp only [moveNode, leaves_get_bind, found, leaves_ite, leaves_throw, leaves_set]
  rw [if_neg (not_or.mpr ⟨not_not.mpr hasParent, notRoot⟩), if_neg (not_not.mpr apart),
    if_neg (Nat.not_le.mpr room), Model.rehung, Model.parentOr0, found]
  rfl

theorem rehung_parents (present : model.contains id) (named : newParent ≠ 0) (index : UInt32) :
    parentsOf (model.rehung id newParent index).nodes =
      Function.update (parentsOf model.nodes) id (some (some newParent)) := by
  rw [Model.rehung, parentsOf_withChildren, parentsOf_withParent named, parentsOf_withChildren]
  rw [← isSome_parentsOf, parentsOf_withChildren]
  exact contains_iff.mp present

theorem rehung_contains (present : model.contains id) (named : newParent ≠ 0)
    (index other : UInt32) : (model.rehung id newParent index).contains other ↔
      model.contains other := by
  rw [contains_iff, rehung_parents present named, contains_iff]
  by_cases same : other = id
  · rw [same, Function.update_self, ← contains_iff]
    exact iff_of_true rfl present
  · rw [Function.update_of_ne same]

theorem rehung_len (present : model.contains id) (named : newParent ≠ 0) (index : UInt32) :
    (model.rehung id newParent index).len = model.len := by
  have keys : (model.rehung id newParent index).nodes.keys = model.nodes.keys := by
    ext other
    rw [mem_keys_iff, ← contains_iff, rehung_contains present named, mem_keys_iff, contains_iff]
  rw [Model.len, keys, Model.len]

end Rehung

/-! ### The focus -/

theorem unfocused_addNode (unfocused : model.unfocused) (id parent index : UInt32) :
    (leaves (addNode id parent index) model).unfocused := by
  simp only [addNode, leaves_get_bind, leaves_ite, leaves_throw, leaves_set]
  split_ifs
  · exact unfocused
  · exact unfocused
  · exact unfocused
  · exact unfocused
  · exact unfocused_hung unfocused id parent index

theorem unfocused_rehung (unfocused : model.unfocused) (id newParent index : UInt32) :
    (model.rehung id newParent index).unfocused := by
  have detached := unfocused_updateAt unfocused (model.parentOr0 id)
    fun node => (rfl : (withChildren (·.filter (· ≠ id)) node).states = node.states)
  have moved := unfocused_updateAt detached id
    fun node => (rfl : { node with parent := newParent }.states = node.states)
  exact unfocused_updateAt moved newParent
    fun node => (rfl : (withChildren (insertChild index id) node).states = node.states)

theorem unfocused_branch (ids : List UInt32) {parent : UInt32} {after : Model}
    (unfocused : model.unfocused) (run : model.run (branch parent ids) = some after) :
    after.unfocused := by
  induction ids generalizing model parent with
  | nil =>
    cases run
    exact unfocused
  | cons id ids induction =>
    have request : (Call.addNode id parent 0).edit = some (addNode id parent 0).done := rfl
    rw [branch, run_cons, Model.WellFormed.after_edit request, Model.WellFormed.leaves_done]
      at run
    exact induction (unfocused_addNode unfocused id parent 0) run

/-- The model once a node is the only one that has the focus. -/
def Model.focusing (model : Model) (id : UInt32) : Model :=
  { model with
    nodes := updateAt id (fun node => { node with states := stateMask [0] }) model.nodes
    dirtyStructural := true }

theorem setStates_after {id : UInt32} (present : model.contains id) :
    (Call.setStates id [0]).after model = some (model.focusing id) := by
  have request : (Call.setStates id [0]).edit = some (setStates id [0]).done := rfl
  rcases Option.isSome_iff_exists.mp present with ⟨node, found⟩
  rw [Model.WellFormed.after_edit request, Model.WellFormed.leaves_done, setStates, updateNode,
    bind_assoc, leaves_bind_ok (run_nodeAt_some found)]
  rfl

theorem focusing_parents (model : Model) (id : UInt32) :
    parentsOf (model.focusing id).nodes = parentsOf model.nodes := by
  funext other
  rw [parentsOf, Model.focusing, lookup_updateAt, parentsOf]
  split
  · rename_i same
    rw [same]
    cases model.nodes.lookup id <;> rfl
  · rfl

theorem focus_focusing (unfocused : model.unfocused) {id : UInt32} {order : List UInt32}
    (present : ∀ other ∈ order, model.contains other) (member : id ∈ order) :
    (model.focusing id).focus order = some (some id) := by
  induction order with
  | nil => cases member
  | cons other order induction =>
    rcases Option.isSome_iff_exists.mp (present other List.mem_cons_self) with ⟨node, found⟩
    have written : (model.focusing id).nodes.lookup other =
        if other = id then (model.nodes.lookup id).map
          (fun node => { node with states := stateMask [0] }) else model.nodes.lookup other :=
      lookup_updateAt ..
    rw [Model.focus, written]
    by_cases same : other = id
    · rw [if_pos same, ← same, found]
      exact if_pos (by decide : stateMask [0] &&& stateFocused ≠ 0)
    · rw [if_neg same, found]
      simp only [Option.bind_eq_bind, Option.bind_some, unfocused other node found]
      exact induction (fun other member => present other (List.mem_cons_of_mem _ member))
        ((List.mem_cons.mp member).resolve_left (Ne.symm same))

/-! ### Stories -/

/-- The ids of a story's upper and lower end. -/
def upper (story : Nat) : UInt32 := .ofNat (510 * story + 2)

def lower (story : Nat) : UInt32 := .ofNat (510 * story + 511)

/-- A story: as long a chain as a node can be moved under. -/
def story (n : Nat) : List Call :=
  branch 1 [upper n] ++ branch (upper n) (idsFrom (510 * n + 3) 509)

/-- Every story is built beside the tower, and the tower then moved under it. -/
def tower : Nat → List Call
  | 0 => .setRoot 1 :: story 0
  | n + 1 => tower n ++ (story (n + 1) ++ [.moveNode (upper n) (lower (n + 1)) 0])

theorem toNat_upper {n : Nat} (few : n < 200) : (upper n).toNat = 510 * n + 2 :=
  UInt32.toNat_ofNat_of_lt' (by simp only [UInt32.size]; omega)

theorem toNat_lower {n : Nat} (few : n < 200) : (lower n).toNat = 510 * n + 511 :=
  UInt32.toNat_ofNat_of_lt' (by simp only [UInt32.size]; omega)

/-- A root with id 1 and ids in a row, none of them focused. -/
structure Model.Holds (model : Model) (count : Nat) : Prop where
  wellFormed : model.WellFormed
  root : model.root = 1
  len : model.len = count + 1
  below : ∀ id, model.contains id → id.toNat < count + 2
  unfocused : model.unfocused

theorem Model.Holds.top {count : Nat} (holds : model.Holds count) : model.contains 1 := by
  rw [contains_iff, (holds.wellFormed.tree.sole 1).mpr]
  · rfl
  · rw [holds.root]
    rfl

theorem run_story {n : Nat} (few : n < 200) (holds : model.Holds (510 * n)) :
    ∃ after, model.run (story n) = some after ∧ after.Holds (510 * (n + 1)) ∧
      (∀ id up, parentsOf model.nodes id = some (some up) →
        parentsOf after.nodes id = some (some up)) ∧
      Climbs (parentsOf after.nodes) 1 (upper n) 1 ∧
      Climbs (parentsOf after.nodes) (upper n) (lower n) 509 := by
  have bounds : maxDepth = 512 ∧ modelCap = 131072 := ⟨rfl, rfl⟩
  have high := toNat_upper few
  have named : 0 ≠ upper n := by
    intro zero
    rw [← zero] at high
    simp at high
  have top : Climbs (parentsOf model.nodes) model.root 1 0 := holds.root ▸ .refl
  rcases run_branch [upper n] holds.wellFormed holds.top top (by simp [bounds])
      (by simp [bounds, holds.len]; omega) (by simpa using named) (List.nodup_singleton _)
      (fun id member present => by
        have small := holds.below id present
        rw [List.mem_singleton.mp member, high] at small
        omega) with
    ⟨first, run₁, wellFormed₁, root₁, len₁, all₁, carried₁, _, places₁⟩
  have hung : Climbs (parentsOf first.nodes) 1 (upper n) 1 := places₁ 0 (by simp)
  have bound₁ (id : UInt32) (present : first.contains id) : id.toNat < 510 * n + 3 := by
    rcases (all₁ id).mp present with same | old
    · rw [List.mem_singleton.mp same, high]
      omega
    · have small := holds.below id old
      omega
  rcases run_branch (idsFrom (510 * n + 3) 509) wellFormed₁ ((all₁ (upper n)).mpr (.inl (by simp)))
      (by rw [root₁, holds.root]; exact hung) (by simp [bounds])
      (by simp [bounds, len₁, holds.len]; omega)
      (fun member => by
        have small := (mem_idsFrom (by omega) member).1
        simp at small)
      (nodup_idsFrom (by omega))
      (fun id member present => by
        have small := (mem_idsFrom (by omega) member).1
        have large := bound₁ id present
        omega) with
    ⟨after, run₂, wellFormed₂, root₂, len₂, all₂, carried₂, _, places₂⟩
  refine ⟨after, ?_, ⟨wellFormed₂, ?_, ?_, fun id present => ?_, ?_⟩,
    fun id up link => carried₂ id up (carried₁ id up link), hung.mono carried₂, ?_⟩
  · rw [story, run_append, run₁, Option.bind_some, run₂]
  · rw [root₂, root₁, holds.root]
  · rw [len₂, len₁, holds.len, length_idsFrom, List.length_singleton]
    omega
  · rcases (all₂ id).mp present with new | old
    · have large := (mem_idsFrom (by omega) new).2
      omega
    · have large := bound₁ id old
      omega
  · exact unfocused_branch _ (unfocused_branch _ holds.unfocused run₁) run₂
  · have within : 508 < (idsFrom (510 * n + 3) 509).length := by simp
    have last : (idsFrom (510 * n + 3) 509)[508] = lower n := by
      rw [lower, (by omega : 510 * n + 511 = 508 + (510 * n + 3))]
      simp only [idsFrom, List.getElem_map, List.getElem_range]
    have reached := places₂ 508 within
    rwa [last] at reached

/-- A tower of one story more than `n`: its deepest node is 511. -/
structure Model.Stands (model : Model) (n : Nat) : Prop extends model.Holds (510 * (n + 1)) where
  first : Climbs (parentsOf model.nodes) 1 (upper n) 1
  deepest : Climbs (parentsOf model.nodes) (upper n) 511 (510 * n + 509)

theorem holds_root : (rootOnly ∅ none).Holds 0 := by
  rcases wellFormed_new.call_after (.setRoot 1) with ⟨planted, called, wellFormed, _⟩
  have begun : (Call.setRoot 1).after Model.new = some (rootOnly ∅ none) := rfl
  rw [begun] at called
  cases called
  refine ⟨wellFormed, rfl, rfl, fun id present => ?_, unfocused_rootOnly ∅ none⟩
  rw [(contains_rootOnly ∅ none id).mp present]
  decide

theorem Model.Holds.stack {n : Nat} {built : Model} (few : n + 1 < 200)
    (holds : built.Holds (510 * (n + 2))) (side : Climbs (parentsOf built.nodes) 1 (upper n) 1)
    (deepest : Climbs (parentsOf built.nodes) (upper n) 511 (510 * n + 509))
    (first : Climbs (parentsOf built.nodes) 1 (upper (n + 1)) 1)
    (length : Climbs (parentsOf built.nodes) (upper (n + 1)) (lower (n + 1)) 509) :
    ∃ after, (Call.moveNode (upper n) (lower (n + 1)) 0).after built = some after ∧
      after.Stands (n + 1) := by
  have wellFormed := holds.wellFormed
  have present : built.contains (upper n) := contains_iff.mpr side.present
  have hasParent : built.contains (lower (n + 1)) := contains_iff.mpr length.present
  have named := wellFormed.ne_zero hasParent
  have far : Climbs (parentsOf built.nodes) built.root (lower (n + 1)) 510 :=
    holds.root ▸ first.trans length
  -- another node lies as far above the new story's end as the tower's top would
  have apart : ¬Above (parentsOf built.nodes) (upper n) (lower (n + 1)) := by
    intro above
    rcases above_iff_climbs.mp above with ⟨links, climbs⟩
    have count := wellFormed.climbs_unique hasParent far (holds.root ▸ side.trans climbs)
    have links' : links = 509 := by omega
    have same := congrArg UInt32.toNat ((links' ▸ climbs).same_top length)
    rw [toNat_upper (by omega), toNat_upper few] at same
    omega
  have climbed := climb_of_climbs wellFormed hasParent far apart (built.len + 1)
    (by rw [holds.len]; omega)
  have notRoot : upper n ≠ built.root := by
    intro same
    have same' := congrArg UInt32.toNat same
    rw [toNat_upper (by omega), holds.root] at same'
    simp at same'
  have moves : built.moves (upper n) (lower (n + 1)) := by
    have depth : built.depthOf (lower (n + 1)) = 511 := wellFormed.depthOf_eq hasParent far
    simp [Model.moves, present, hasParent, notRoot, climbed, depth, maxDepth]
  have called := moveNode_after moves 0
  rcases wellFormed.call_after (.moveNode (upper n) (lower (n + 1)) 0) with
    ⟨after, called', kept, _⟩
  rw [called] at called'
  cases called'
  have parents := rehung_parents present named 0
  have length' : Climbs (parentsOf (built.rehung (upper n) (lower (n + 1)) 0).nodes)
      (upper (n + 1)) (lower (n + 1)) 509 := parents ▸ length.update apart
  have link : parentsOf (built.rehung (upper n) (lower (n + 1)) 0).nodes (upper n) =
      some (some (lower (n + 1))) := by
    rw [parents, Function.update_self]
  have deepest' : Climbs (parentsOf (built.rehung (upper n) (lower (n + 1)) 0).nodes)
      (upper n) 511 (510 * n + 509) :=
    parents ▸ deepest.update_top (wellFormed.tree.rooted 511 deepest.present)
  refine ⟨_, called, ⟨kept, holds.root, ?_, fun id there => ?_, ?_⟩, ?_, ?_⟩
  · rw [rehung_len present named, holds.len]
  · exact holds.below id ((rehung_contains present named 0 id).mp there)
  · exact unfocused_rehung holds.unfocused (upper n) (lower (n + 1)) 0
  · exact parents ▸ first.update fun above => apart (above.trans length.above)
  · have whole := (Climbs.child link length').trans deepest'
    rwa [(by omega : 509 + 1 + (510 * n + 509) = 510 * (n + 1) + 509)] at whole

theorem run_tower {n : Nat} (few : n < 200) :
    ∃ model, Model.new.run (tower n) = some model ∧ model.Stands n := by
  induction n with
  | zero =>
    rcases run_story (by decide : 0 < 200) holds_root with ⟨built, run, holds, _, first, length⟩
    have deepest : lower 0 = 511 := by decide
    rw [deepest] at length
    have planted : (Call.setRoot 1).after Model.new = some (rootOnly ∅ none) := rfl
    refine ⟨built, ?_, holds, first, length⟩
    rw [tower, run_cons, planted, Option.bind_some, run]
  | succ n induction =>
    rcases induction (by omega) with ⟨model, run, stands⟩
    rcases run_story few stands.toHolds with ⟨built, run', holds, carried, first, length⟩
    rcases Model.Holds.stack few holds (stands.first.mono carried) (stands.deepest.mono carried)
      first length with ⟨after, moved, stands'⟩
    refine ⟨after, ?_, stands'⟩
    rw [tower, run_append, run, Option.bind_some, run_append, run', Option.bind_some, run_cons,
      moved]
    rfl

end EclipseOS.Abyss.Semantic
