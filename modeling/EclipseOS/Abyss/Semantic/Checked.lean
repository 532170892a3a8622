import EclipseOS.Abyss.Semantic.WellFormed

/-! # Every call returns a tree its own check accepts

The loops that follow links come to an end on a tree, so a commit returns, and the
structure check finds nothing wrong. -/

namespace EclipseOS.Abyss.Semantic

open Foundation PolicyEval

variable {model : Model}

/-- What a walk over the model's tree has seen and stacked. -/
abbrev Model.Walk (model : Model) (seen : Finset UInt32) (stack : List UInt32) : Prop :=
  Frontier (parentsOf model.nodes) (childrenOf model.nodes) (rootOf model.root) seen stack

theorem mem_keys_iff {id : UInt32} :
    id ∈ model.nodes.keys ↔ (parentsOf model.nodes id).isSome := by
  rw [isSome_parentsOf, Finmap.mem_keys, ← Finmap.lookup_isSome]

theorem Model.Walk.top_found {seen : Finset UInt32} {id : UInt32} {stack : List UInt32}
    (walk : model.Walk seen (id :: stack)) : ∃ node, model.nodes.lookup id = some node := by
  have present := walk.present id (.inr List.mem_cons_self)
  rw [isSome_parentsOf] at present
  exact Option.isSome_iff_exists.mp present

theorem Model.Walk.fewer {seen : Finset UInt32} {id : UInt32} {stack : List UInt32}
    (walk : model.Walk seen (id :: stack)) :
    (model.nodes.keys \ insert id seen).card < (model.nodes.keys \ seen).card := by
  apply Finset.card_lt_card
  refine (Finset.ssubset_iff_of_subset (Finset.sdiff_subset_sdiff subset_rfl
    (Finset.subset_insert _ _))).mpr ⟨id, Finset.mem_sdiff.mpr ⟨?_, ?_⟩, by simp⟩
  · exact mem_keys_iff.mpr (walk.present id (.inr List.mem_cons_self))
  · exact walk.fresh id List.mem_cons_self

namespace Model.WellFormed

/-! ## The check -/

theorem checkChild_ok (wellFormed : model.WellFormed) {id child : UInt32}
    (member : child ∈ childrenOf model.nodes id) : checkChild model id child = .ok () := by
  have link := (wellFormed.tree.listed id child).mp member
  rcases Option.map_eq_some_iff.mp link with ⟨node, found, named⟩
  rw [checkChild, found]
  exact if_neg (not_not.mpr (up_eq_some.mp named).1)

theorem forM_ok {α ε : Type} {check : α → Except ε Unit} {items : List α}
    (all : ∀ item ∈ items, check item = .ok ()) : items.forM check = .ok () := by
  induction items with
  | nil => rfl
  | cons item items induction =>
    show (check item >>= fun _ => items.forM check) = _
    rw [all item List.mem_cons_self]
    exact induction fun other member => all other (List.mem_cons_of_mem _ member)

theorem checkFrom_ok (wellFormed : model.WellFormed) {seen : Finset UInt32}
    {stack : List UInt32} (walk : model.Walk seen stack) :
    ∃ after, checkFrom model seen stack = .ok after ∧ model.Walk after [] := by
  induction unseen : (model.nodes.keys \ seen).card using Nat.strong_induction_on
    generalizing seen stack with
  | _ n induction =>
    cases stack with
    | nil =>
      rw [checkFrom]
      exact ⟨seen, rfl, walk⟩
    | cons id stack =>
      rcases walk.top_found with ⟨node, found⟩
      have checked : node.children.forM (checkChild model id) = .ok () :=
        forM_ok fun child member => wellFormed.checkChild_ok (by
          rw [childrenOf_some found]
          exact member)
      have visited : model.Walk (insert id seen) (node.children.reverse ++ stack) :=
        walk.visit wellFormed.tree (by
          rw [childrenOf_some found]
          exact node.children.reverse_perm)
      have rest := induction _ (unseen ▸ walk.fewer) visited rfl
      rw [checkFrom, dif_neg (walk.fresh id List.mem_cons_self)]
      split
      · rename_i missing
        rw [found] at missing
        cases missing
      · rename_i node' found'
        rw [found] at found'
        cases found'
        rw [checked]
        exact rest

theorem check_ok (wellFormed : model.WellFormed) : model.check = .ok () := by
  have tree := wellFormed.tree
  rw [Model.check]
  split
  · rename_i rootless
    rw [rootless, show rootOf 0 = none from rfl] at tree
    have empty : model.isEmpty := by
      rw [Model.isEmpty, decide_eq_true_eq, Finset.eq_empty_iff_forall_notMem]
      intro id member
      rw [mem_keys_iff, tree.absent_of_rootless id] at member
      cases member
    rw [if_pos empty]
  · rename_i named
    have top : rootOf model.root = some model.root := rootOf_eq_some.mpr ⟨rfl, named⟩
    rcases Option.map_eq_some_iff.mp ((tree.sole model.root).mpr top) with ⟨root, found, orphan⟩
    rcases wellFormed.checkFrom_ok (Frontier.start tree top) with ⟨seen, walked, walk⟩
    have all : seen = model.nodes.keys := by
      ext id
      rw [walk.finished tree, mem_keys_iff]
    simp only [found, up_eq_none.mp orphan, walked, all, Model.len, ne_eq, not_true, if_false]

/-! ## Commits -/

theorem present_iff {id : UInt32} :
    (parentsOf model.nodes id).isSome ↔ ∃ node, model.nodes.lookup id = some node := by
  rw [isSome_parentsOf, Option.isSome_iff_exists]

theorem child_present (wellFormed : model.WellFormed) {id child : UInt32} {node : Node}
    (found : model.nodes.lookup id = some node) (member : child ∈ node.children) :
    (parentsOf model.nodes child).isSome := by
  rw [← childrenOf_some found, wellFormed.tree.listed] at member
  rw [member]
  rfl

theorem effectiveFrom_some (wellFormed : model.WellFormed) (now : Instant) {seen : Finset UInt32}
    {stack : List (UInt32 × Class)} (walk : model.Walk seen (stack.map Prod.fst)) :
    ∃ order, effectiveFrom model now stack = some order ∧ (order.map Prod.fst).Nodup ∧
      (∀ id ∈ order.map Prod.fst, id ∉ seen) ∧
        model.Walk (seen ∪ (order.map Prod.fst).toFinset) [] := by
  induction unseen : (model.nodes.keys \ seen).card using Nat.strong_induction_on
    generalizing seen stack with
  | _ n induction =>
    rcases stack with _ | ⟨⟨id, inherited⟩, stack⟩
    · rw [effectiveFrom]
      exact ⟨[], rfl, .nil, List.forall_mem_nil _, by simpa using walk⟩
    · rcases walk.top_found with ⟨node, found⟩
      let «class» := if model.tainted then .secret
        else inherited.max ((model.sec.lookup id).elim Class.private (·.local now))
      have visited : model.Walk (insert id seen)
          ((node.children.map (·, «class») ++ stack).map Prod.fst) := by
        rw [List.map_append, List.map_map]
        refine walk.visit wellFormed.tree ?_
        rw [childrenOf_some found]
        exact .of_eq (List.map_id _)
      rcases induction _ (unseen ▸ walk.fewer) visited rfl with
        ⟨order, rest, distinct, fresh, walked⟩
      refine ⟨(id, «class») :: order, ?_, ?_, ?_, ?_⟩
      · rw [effectiveFrom, found]
        show (effectiveFrom model now (node.children.map (·, «class») ++ stack)).bind _ = _
        rw [rest]
        rfl
      · refine List.nodup_cons.mpr ⟨fun again => ?_, distinct⟩
        exact fresh id again (Finset.mem_insert_self _ _)
      · intro other member
        rcases List.mem_cons.mp member with rfl | member
        · exact walk.fresh _ List.mem_cons_self
        · exact fun old => fresh other member (Finset.mem_insert_of_mem old)
      · rw [List.map_cons, List.toFinset_cons, Finset.union_insert, ← Finset.insert_union]
        exact walked

theorem effective_some (wellFormed : model.WellFormed) (now : Instant) :
    ∃ order, model.effective now = some order ∧ order.length = model.len ∧
      (order.map Prod.fst).Nodup ∧
        ∀ id, id ∈ order.map Prod.fst ↔ (parentsOf model.nodes id).isSome := by
  by_cases rootless : model.root = 0
  · have tree := wellFormed.tree
    rw [rootless, show rootOf 0 = none from rfl] at tree
    have empty : model.nodes.keys = ∅ := by
      rw [Finset.eq_empty_iff_forall_notMem]
      intro id member
      rw [mem_keys_iff, tree.absent_of_rootless id] at member
      cases member
    refine ⟨[], ?_, ?_, .nil, fun id => ?_⟩
    · rw [Model.effective, effectiveFrom, rootless, wellFormed.zero, effectiveFrom]
    · rw [Model.len, empty]
      rfl
    · simp [tree.absent_of_rootless id]
  · have top : rootOf model.root = some model.root := rootOf_eq_some.mpr ⟨rfl, rootless⟩
    have walk : model.Walk ∅ ([(model.root, Class.private)].map Prod.fst) :=
      Frontier.start wellFormed.tree top
    rcases wellFormed.effectiveFrom_some now walk with ⟨order, ordered, distinct, _, walked⟩
    have all : (order.map Prod.fst).toFinset = model.nodes.keys := by
      ext id
      rw [mem_keys_iff, ← walked.finished wellFormed.tree, Finset.empty_union]
    refine ⟨order, ordered, ?_, distinct, fun id => ?_⟩
    · rw [Model.len, ← all, List.toFinset_card_of_nodup distinct, List.length_map]
    · rw [← mem_keys_iff, ← all, List.mem_toFinset]

theorem pathUp_some (wellFormed : model.WellFormed) {id : UInt32}
    (present : (parentsOf model.nodes id).isSome) : ∃ path, model.pathUp id = some path := by
  have atZero : model.pathUp 0 = some [] := by rw [Model.pathUp, if_pos rfl]
  have step {id : UInt32} {node : Node} (found : model.nodes.lookup id = some node)
      (above : ∃ path, model.pathUp node.parent = some path) :
      ∃ path, model.pathUp id = some path := by
    rcases above with ⟨path, climbed⟩
    rw [Model.pathUp, found]
    split
    · exact ⟨[], rfl⟩
    · exact ⟨id :: path, by simp [climbed]⟩
  induction wellFormed.tree.rooted id present with
  | root top =>
    rcases Option.map_eq_some_iff.mp top with ⟨node, found, orphan⟩
    exact step found ⟨[], by rw [up_eq_none.mp orphan, atZero]⟩
  | child link rest induction =>
    rcases Option.map_eq_some_iff.mp link with ⟨node, found, named⟩
    rw [← (up_eq_some.mp named).1] at induction rest
    exact step found (induction rest.present)

theorem subtree_some (wellFormed : model.WellFormed) (focus : UInt32) (left : Nat)
    {stack : List UInt32} (present : ∀ id ∈ stack, (parentsOf model.nodes id).isSome) :
    ∃ kept, model.subtree focus left stack = some kept := by
  induction left generalizing stack with
  | zero => exact ⟨[], by rw [Model.subtree]⟩
  | succ left induction =>
    cases stack with
    | nil => exact ⟨[], rfl⟩
    | cons id stack =>
      rcases present_iff.mp (present id List.mem_cons_self) with ⟨node, found⟩
      have below : ∀ other ∈ node.children ++ stack,
          (parentsOf model.nodes other).isSome := by
        intro other member
        rcases List.mem_append.mp member with child | stacked
        · exact wellFormed.child_present found child
        · exact present other (List.mem_cons_of_mem _ stacked)
      rcases induction below with ⟨kept, rest⟩
      exact ⟨if id = focus then kept else id :: kept, by simp [Model.subtree, found, rest]⟩

theorem fill_some {order : List UInt32} (present : ∀ id ∈ order, (parentsOf model.nodes id).isSome)
    (kept : Finset UInt32) : ∃ filled, model.fill kept order = some filled := by
  induction order generalizing kept with
  | nil => exact ⟨kept, rfl⟩
  | cons id order induction =>
    rcases present_iff.mp (present id List.mem_cons_self) with ⟨node, found⟩
    have rest := induction fun other member => present other (List.mem_cons_of_mem _ member)
    rw [Model.fill]
    split
    · exact ⟨kept, rfl⟩
    · simp only [found, Option.bind_eq_bind, Option.bind_some]
      split
      · exact rest _
      · exact rest _

theorem focus_some {order : List UInt32}
    (present : ∀ id ∈ order, (parentsOf model.nodes id).isSome) :
    ∃ focused, model.focus order = some focused ∧ ∀ id ∈ focused, id ∈ order := by
  induction order with
  | nil => exact ⟨none, rfl, nofun⟩
  | cons id order induction =>
    rcases present_iff.mp (present id List.mem_cons_self) with ⟨node, found⟩
    rcases induction fun other member => present other (List.mem_cons_of_mem _ member) with
      ⟨focused, rest, among⟩
    by_cases bit : node.states &&& stateFocused ≠ 0
    · exact ⟨some id, by simp [Model.focus, found, bit], by simp⟩
    · refine ⟨focused, ?_, fun other member => List.mem_cons_of_mem _ (among other member)⟩
      simp [Model.focus, found, not_not.mp bit, rest]

theorem choose_some (wellFormed : model.WellFormed) {order : List UInt32}
    (present : ∀ id ∈ order, (parentsOf model.nodes id).isSome) :
    ∃ kept, model.choose order = some kept := by
  rw [Model.choose]
  split
  · exact ⟨_, rfl⟩
  · rcases focus_some present with ⟨focused, focus, among⟩
    simp only [focus]
    cases focused with
    | none => exact fill_some present ∅
    | some focused =>
      have there := present focused (among focused rfl)
      rcases wellFormed.pathUp_some there with ⟨path, climbed⟩
      have onlyThere : ∀ id ∈ [focused], (parentsOf model.nodes id).isSome := by
        simpa using there
      rcases wellFormed.subtree_some focused (nodeBudget / 2) onlyThere with ⟨under, below⟩
      rcases fill_some present (path.toFinset ∪ under.toFinset) with ⟨filled, rest⟩
      exact ⟨filled, by simp [climbed, below, rest]⟩

theorem publish_some {order : List (UInt32 × Class)}
    (present : ∀ id ∈ order.map Prod.fst, (parentsOf model.nodes id).isSome)
    (size : Int32 × Int32) (kept : Finset UInt32) (done : Published) :
    ∃ published, model.publish size kept done order = some published := by
  induction order generalizing done with
  | nil => exact ⟨done, rfl⟩
  | cons entry order induction =>
    rcases present_iff.mp (present entry.1 List.mem_cons_self) with ⟨node, found⟩
    have rest := induction fun other member => present other (List.mem_cons_of_mem _ member)
    rw [Model.publish]
    split
    · exact rest _
    · simp only [found, Option.bind_eq_bind, Option.bind_some]
      exact rest _

theorem commitOrder_some (wellFormed : model.WellFormed) {order : List (UInt32 × Class)}
    (present : ∀ id ∈ order.map Prod.fst, (parentsOf model.nodes id).isSome)
    (size : Int32 × Int32) :
    ∃ published after, model.commitOrder size order = some (published, after) ∧
      SameLinks model after := by
  rcases wellFormed.choose_some present with ⟨kept, chosen⟩
  rcases publish_some present size kept ⟨∅, [], [], false⟩ with ⟨done, published⟩
  rw [Model.commitOrder, chosen]
  simp only [Option.bind_eq_bind, Option.bind_some, published]
  refine ⟨_, _, rfl, .of_nodes ?_ ?_⟩
  · show (if model.dirtyStructural then _ else _ : Model).root = _
    split <;> rfl
  · show (if model.dirtyStructural then _ else _ : Model).nodes = _
    split <;> rfl

theorem commit_some (wellFormed : model.WellFormed) (size : Int32 × Int32) (now : Instant) :
    ∃ after, SameLinks model after ∧
      ((∃ published, model.commit size now = some (.ok published after)) ∨
        ∃ violation, model.commit size now = some (.error violation after)) := by
  rw [Model.commit]
  split
  · exact ⟨model, .refl model, .inl ⟨none, rfl⟩⟩
  · split
    · exact ⟨model, .refl model, .inr ⟨.invalidNode, rfl⟩⟩
    · rcases wellFormed.effective_some now with ⟨order, ordered, complete, _, present⟩
      rcases wellFormed.commitOrder_some (fun id => (present id).mp) size with
        ⟨published, after, committed, same⟩
      refine ⟨after, same, .inl ⟨some published, ?_⟩⟩
      simp [ordered, complete, committed]

/-! ## Runs -/

theorem leaves_done (edit : Edit Unit) (model : Model) : leaves edit.done model = leaves edit model :=
  leaves_bind_pure (fun _ => Reply.done) edit model

theorem leaves_ext (edit : Edit ExtOutcome) (model : Model) :
    leaves (.ext <$> edit : Edit Reply) model = leaves edit model := by
  rw [map_eq_pure_bind]
  exact leaves_bind_pure Reply.ext edit model

/-- The requests that do not hang, move or remove a node are put together from writes. -/
theorem writes_edit {relation : Model → Model → Prop} (writes : Writes relation) {call : Call}
    (plain : call.relinks = false) {edit : Edit Reply} (request : call.edit = some edit) :
    relation model (leaves edit model) := by
  have done {edit : Edit Unit} (preserves : Preserves relation edit) :
      relation model (leaves edit.done model) := by
    rw [leaves_done]
    exact preserves model
  have written (id : UInt32) {update : Node → Node} {mark : Edit Unit}
      (keeps : Preserves relation (updateNode id update)) (marks : Preserves relation mark) :=
    done (writes.bind keeps fun _ => marks)
  cases call <;> cases plain <;> cases request
  case setRole id role => exact done (writes.setRole id role)
  case setName id name => exact written id (writes.updateNode id) writes.markValue
  case setDescription id desc => exact written id (writes.updateNode id) writes.markValue
  case setRect id x y w h => exact written id (writes.updateNode id) writes.markStructural
  case setStates id codes => exact written id (writes.updateNode id) writes.markStructural
  case setValueText id text cursor selStart selEnd => exact done (writes.setValue id _)
  case setValueNumber id value min max step => exact done (writes.setValue id _)
  case setValueUrl id href => exact done (writes.setValue id _)
  case clearValue id => exact written id (writes.updateNode id) writes.markValue
  case setActions id verbs => exact written id (writes.updateNode id) writes.markStructural
  case setActionLabel id verb label => exact done (writes.setActionLabel id verb label)
  case setSensitivity id level => exact done (writes.setSensitivity id level)
  case setExt id key value now known =>
    rw [leaves_ext]
    exact writes.setExt id key value now known model

theorem edit_leaves (wellFormed : model.WellFormed) {call : Call} {edit : Edit Reply}
    (request : call.edit = some edit) : (leaves edit model).WellFormed := by
  cases plain : call.relinks with
  | false => exact (writes_edit SameLinks.writes plain request).wellFormed wellFormed
  | true =>
    cases call <;> cases plain <;> cases request
    all_goals rw [leaves_done]
    · exact wellFormed.setRoot _
    · exact wellFormed.addNode _ _ _
    · exact wellFormed.removeNode _ _
    · exact wellFormed.moveNode _ _ _

theorem after_edit {call : Call} {edit : Edit Reply} (request : call.edit = some edit) :
    call.after model = some (leaves edit model) := by
  have performed : call.perform model = some (edit.run model) := by
    cases call <;> cases request <;> rfl
  rw [Call.after, performed, leaves]
  cases edit.run model <;> rfl

/-- Every call returns; it keeps the tree, and the links too where it relinks nothing. -/
theorem call_after (wellFormed : model.WellFormed) (call : Call) :
    ∃ after, call.after model = some after ∧ after.WellFormed ∧
      (call.relinks = false → SameLinks model after) := by
  cases request : call.edit with
  | some edit =>
    exact ⟨leaves edit model, after_edit request, wellFormed.edit_leaves request,
      fun plain => writes_edit SameLinks.writes plain request⟩
  | none =>
    cases call <;> cases request
    rename_i size now
    rcases wellFormed.commit_some size now with ⟨after, same, ended⟩
    refine ⟨after, ?_, same.wellFormed wellFormed, fun _ => same⟩
    rcases ended with ⟨published, committed⟩ | ⟨violation, refused⟩
    · rw [Call.after, Call.perform, committed]
      rfl
    · rw [Call.after, Call.perform, refused]
      rfl

theorem run (wellFormed : model.WellFormed) (calls : List Call) :
    ∃ after, model.run calls = some after ∧ after.WellFormed := by
  induction calls generalizing model with
  | nil => exact ⟨model, rfl, wellFormed⟩
  | cons call calls induction =>
    rcases wellFormed.call_after call with ⟨middle, called, kept, _⟩
    rcases induction kept with ⟨after, rest, ended⟩
    refine ⟨after, ?_, ended⟩
    rw [Model.run, List.foldlM_cons, called]
    exact rest

end Model.WellFormed

theorem wellFormed_of_run {calls : List Call} (run : Model.new.run calls = some model) :
    model.WellFormed := by
  rcases wellFormed_new.run calls with ⟨_, run', wellFormed⟩
  rw [run] at run'
  cases run'
  exact wellFormed

/-- Whatever is asked of a fresh model, in any order and refused or not, every call
returns, the nodes are one tree and the structure check finds nothing. -/
theorem runs_pass_check (calls : List Call) :
    ∃ model, Model.new.run calls = some model ∧ model.WellFormed ∧ model.check = .ok () := by
  rcases wellFormed_new.run calls with ⟨model, run, wellFormed⟩
  exact ⟨model, run, wellFormed, wellFormed.check_ok⟩

end EclipseOS.Abyss.Semantic
