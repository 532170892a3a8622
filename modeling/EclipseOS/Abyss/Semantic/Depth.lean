import EclipseOS.Abyss.Semantic.Checked

/-! # How deep a semantic tree grows

Both requests that hang a node look at the depth of its new parent. A node that is
added has nothing under it; a node that is moved takes its subtree along. -/

namespace EclipseOS.Abyss.Semantic

open Foundation PolicyEval

/-- Every node is at most `maxDepth` links away from the root. -/
def Model.Shallow (model : Model) : Prop :=
  ∀ id, model.contains id →
    ∃ links ≤ maxDepth, Climbs (parentsOf model.nodes) model.root id links

/-- Whether `moveNode` carries a move out. -/
def Model.moves (model : Model) (id newParent : UInt32) : Bool :=
  model.contains id && model.contains newParent && id ≠ model.root &&
    model.climb id (model.len + 1) newParent = some 0 && model.depthOf newParent < maxDepth

/-- Where a call moves a node, there is room under its new parent for all that is
below it. -/
def Model.Spares (model : Model) : Call → Prop
  | .moveNode id newParent _ =>
    model.moves id newParent → ∀ below up down,
      Climbs (parentsOf model.nodes) model.root newParent up →
        Climbs (parentsOf model.nodes) id below down → up + 1 + down ≤ maxDepth
  | _ => True

variable {model after : Model}

namespace Model.WellFormed

theorem root_orphan (wellFormed : model.WellFormed) {id : UInt32} (present : model.contains id) :
    model.root ≠ 0 ∧ parentsOf model.nodes model.root = some none := by
  have named : model.root ≠ 0 := by
    intro rootless
    have tree := wellFormed.tree
    rw [rootless, show rootOf 0 = none from rfl] at tree
    rw [contains_iff, tree.absent_of_rootless id] at present
    cases present
  exact ⟨named, (wellFormed.tree.sole _).mpr (rootOf_eq_some.mpr ⟨rfl, named⟩)⟩

theorem climbs (wellFormed : model.WellFormed) {id : UInt32} (present : model.contains id) :
    ∃ links, Climbs (parentsOf model.nodes) model.root id links :=
  above_iff_climbs.mp (wellFormed.tree.above_root
    (rootOf_eq_some.mpr ⟨rfl, (wellFormed.root_orphan present).1⟩) (contains_iff.mp present))

theorem countUp_of_climbs (wellFormed : model.WellFormed)
    {id : UInt32} {links : Nat} (present : model.contains id)
    (climbs : Climbs (parentsOf model.nodes) model.root id links) (fuel : Nat) :
    model.countUp fuel id = min fuel (links + 1) := by
  have atZero (fuel : Nat) : model.countUp fuel 0 = 0 := by
    cases fuel with
    | zero => rfl
    | succ fuel => rw [Model.countUp, if_pos rfl]
  have top := wellFormed.root_orphan present
  induction climbs generalizing fuel with
  | refl =>
    rcases Option.map_eq_some_iff.mp top.2 with ⟨node, found, orphan⟩
    cases fuel with
    | zero => rfl
    | succ fuel =>
      rw [Model.countUp, if_neg top.1, Model.parentOr0, found]
      show model.countUp fuel node.parent + 1 = _
      rw [up_eq_none.mp orphan, atZero]
      omega
  | @child id parent links link rest induction =>
    have up := parentOr0_of_link link
    have parentPresent := contains_iff.mpr (wellFormed.tree.parent_present link)
    cases fuel with
    | zero => simp [Model.countUp]
    | succ fuel =>
      rw [Model.countUp, if_neg (wellFormed.ne_zero present), up.1,
        induction parentPresent]
      omega

theorem depthOf_eq (wellFormed : model.WellFormed) {id : UInt32} {links : Nat}
    (present : model.contains id) (climbs : Climbs (parentsOf model.nodes) model.root id links) :
    model.depthOf id = min (maxDepth + 1) (links + 1) :=
  wellFormed.countUp_of_climbs present climbs _

theorem climbs_unique (wellFormed : model.WellFormed) {id : UInt32} {links more : Nat}
    (present : model.contains id) (first : Climbs (parentsOf model.nodes) model.root id links)
    (second : Climbs (parentsOf model.nodes) model.root id more) : links = more :=
  first.unique (wellFormed.root_orphan present).2 second

end Model.WellFormed

/-! ## One call -/

theorem contains_congr (same : parentsOf after.nodes = parentsOf model.nodes) {id : UInt32} :
    after.contains id ↔ model.contains id := by
  rw [contains_iff, contains_iff, same]

theorem SameLinks.shallow (same : SameLinks model after) (shallow : model.Shallow) :
    after.Shallow := by
  intro id present
  rw [same.1, same.parents]
  exact shallow id ((contains_congr same.parents).mp present)

theorem shallow_of_fewer (wellFormed : model.WellFormed) (kept : after.WellFormed)
    (fewer : ∀ id, parentsOf after.nodes id = none ∨
      parentsOf after.nodes id = parentsOf model.nodes id) (shallow : model.Shallow) :
    after.Shallow := by
  intro id present
  have old {other : UInt32} {up : Option UInt32} (link : parentsOf after.nodes other = some up) :
      parentsOf model.nodes other = some up := by
    rcases fewer other with gone | same
    · rw [gone] at link
      cases link
    · rw [← same, link]
  rcases kept.climbs present with ⟨links, climbs⟩
  have sameRoot : after.root = model.root := by
    have orphan := (wellFormed.tree.sole _).mp (old (kept.root_orphan present).2)
    exact (rootOf_eq_some.mp orphan).1.symm
  have before : model.contains id := by
    rcases Option.isSome_iff_exists.mp (contains_iff.mp present) with ⟨up, link⟩
    rw [contains_iff, old link]
    rfl
  rcases shallow id before with ⟨few, bound, climbs'⟩
  have climbed : Climbs (parentsOf model.nodes) after.root id links :=
    climbs.mono fun _ _ link => old link
  rw [sameRoot] at climbed
  rw [wellFormed.climbs_unique before climbs' climbed] at bound
  exact ⟨links, bound, climbs⟩

theorem shallow_single (rootless : model.root = 0) (wellFormed : model.WellFormed) {id : UInt32}
    (root : after.root = id)
    (parents : parentsOf after.nodes = Function.update (parentsOf model.nodes) id (some none)) :
    after.Shallow := by
  intro other present
  have same : other = after.root := by
    by_contra different
    have tree := wellFormed.tree
    rw [rootless, show rootOf 0 = none from rfl] at tree
    rw [contains_iff, parents, Function.update_of_ne (root ▸ different),
      tree.absent_of_rootless other] at present
    cases present
  exact ⟨0, Nat.zero_le _, same ▸ .refl⟩

/-- Hanging a node, old or new, under one it is not above: only what it is above
comes to lie elsewhere. -/
theorem shallow_relink_iff (wellFormed : model.WellFormed) (kept : after.WellFormed)
    (root : after.root = model.root) (id parent : UInt32)
    (parents : parentsOf after.nodes =
      Function.update (parentsOf model.nodes) id (some (some parent)))
    (hasParent : model.contains parent) (apart : ¬Above (parentsOf model.nodes) id parent)
    (carried : ∀ other down, Climbs (parentsOf model.nodes) id other down →
      Climbs (parentsOf after.nodes) id other down)
    (shallow : model.Shallow) :
    after.Shallow ↔ ∀ other up down, Climbs (parentsOf model.nodes) model.root parent up →
      Climbs (parentsOf model.nodes) id other down → up + 1 + down ≤ maxDepth := by
  have hung : parentsOf after.nodes id = some (some parent) := by
    rw [parents, Function.update_self]
  have moved {other : UInt32} {up down : Nat}
      (upper : Climbs (parentsOf model.nodes) model.root parent up)
      (lower : Climbs (parentsOf model.nodes) id other down) :
      Climbs (parentsOf after.nodes) after.root other (up + 1 + down) := by
    have top : Climbs (parentsOf after.nodes) after.root id (up + 1) := by
      refine .child hung ?_
      rw [parents, root]
      exact upper.update apart
    exact top.trans (carried other down lower)
  constructor
  · intro bounded other up down upper lower
    have lies := moved upper lower
    have present : after.contains other := by
      rw [contains_iff]
      by_cases same : other = id
      · rw [same, hung]
        rfl
      · cases lower with
        | refl => exact absurd rfl same
        | child link =>
          rw [parents, Function.update_of_ne same, link]
          rfl
    rcases bounded other present with ⟨links, bound, climbs⟩
    rwa [← kept.climbs_unique present climbs lies]
  · intro room other present
    by_cases above : Above (parentsOf model.nodes) id other
    · rcases above_iff_climbs.mp above with ⟨down, lower⟩
      rcases wellFormed.climbs hasParent with ⟨up, upper⟩
      exact ⟨up + 1 + down, room other up down upper lower, moved upper lower⟩
    · have different : other ≠ id := by
        rintro rfl
        exact above .refl
      rw [contains_iff, parents, Function.update_of_ne different, ← contains_iff] at present
      rcases shallow other present with ⟨links, bound, climbs⟩
      refine ⟨links, bound, ?_⟩
      rw [parents, root]
      exact climbs.update above

theorem shallow_setRoot (wellFormed : model.WellFormed) (shallow : model.Shallow) (id : UInt32) :
    (leaves (setRoot id) model).Shallow := by
  simp only [setRoot, leaves_get_bind, leaves_ite, leaves_throw, leaves_pure, leaves_set]
  split_ifs with zero same taken
  · exact shallow
  · exact shallow
  · exact shallow
  · exact shallow_single (not_not.mp (not_or.mp taken).1) wellFormed rfl (parentsOf_insert ..)

theorem shallow_addNode (wellFormed : model.WellFormed) (shallow : model.Shallow)
    (id parent index : UInt32) : (leaves (addNode id parent index) model).Shallow := by
  have kept := wellFormed.addNode id parent index
  simp only [addNode, leaves_get_bind, leaves_ite, leaves_throw, leaves_set] at kept ⊢
  split_ifs at kept ⊢ with zero taken missing full
  · exact shallow
  · exact shallow
  · exact shallow
  · exact shallow
  · rcases not_or.mp missing with ⟨hasParent, room⟩
    rw [not_not] at hasParent
    have absent : parentsOf model.nodes id = none := by
      rw [parentsOf_eq_none]
      simpa [Model.contains] using taken
    have leaf (other : UInt32) (down : Nat)
        (climbs : Climbs (parentsOf model.nodes) id other down) : other = id ∧ down = 0 := by
      induction climbs with
      | refl => exact ⟨rfl, rfl⟩
      | child link rest induction =>
        have present := wellFormed.tree.parent_present link
        rw [induction.1, absent] at present
        cases present
    refine (shallow_relink_iff wellFormed kept rfl id parent ?_ hasParent ?_ ?_ shallow).mpr ?_
    · rw [parentsOf_withChildren, parentsOf_insert, up_new (wellFormed.ne_zero hasParent)]
    · intro above
      rcases above_iff_climbs.mp above with ⟨down, climbs⟩
      rw [(leaf parent down climbs).1] at hasParent
      exact taken hasParent
    · intro other down climbs
      rcases leaf other down climbs with ⟨rfl, rfl⟩
      exact .refl
    · intro other up down upper lower
      rw [wellFormed.depthOf_eq hasParent upper] at room
      rw [(leaf other down lower).2]
      omega

theorem shallow_removeNode (wellFormed : model.WellFormed) (shallow : model.Shallow) (id : UInt32)
    (now : Instant) : (leaves (removeNode id now) model).Shallow :=
  shallow_of_fewer wellFormed (wellFormed.removeNode id now) (wellFormed.removeNode_fewer id now)
    shallow

theorem shallow_moveNode_iff (wellFormed : model.WellFormed) (shallow : model.Shallow)
    (id newParent index : UInt32) :
    (leaves (moveNode id newParent index) model).Shallow ↔
      model.Spares (.moveNode id newParent index) := by
  have kept := wellFormed.moveNode id newParent index
  have refused (not : model.moves id newParent = false) :
      model.Shallow ↔ model.Spares (.moveNode id newParent index) := by
    refine iff_of_true shallow fun moves => ?_
    rw [not] at moves
    cases moves
  simp only [moveNode, leaves_get_bind] at kept ⊢
  cases found : model.nodes.lookup id with
  | none => exact refused (by simp [Model.moves, Model.contains, found])
  | some node =>
    simp only [found, leaves_ite, leaves_throw, leaves_set] at kept ⊢
    have present : model.contains id := by
      rw [Model.contains, found]
      rfl
    split_ifs at kept ⊢ with missing cycle deep
    · refine refused ?_
      rcases missing with absent | top
      · simp [Model.moves, absent]
      · simp [Model.moves, top]
    · exact refused (by simp [Model.moves, cycle])
    · exact refused (by simp [Model.moves, deep])
    · rcases not_or.mp missing with ⟨hasParent, notRoot⟩
      rw [not_not] at hasParent cycle
      have moves : model.moves id newParent := by
        simp [Model.moves, present, hasParent, notRoot, cycle, Nat.lt_of_not_le deep]
      have newNonzero := wellFormed.ne_zero hasParent
      have parents : parentsOf (updateAt newParent (withChildren (insertChild index id))
          (updateAt id (fun node => { node with parent := newParent })
            (updateAt node.parent (withChildren (·.filter (· ≠ id))) model.nodes))) =
          Function.update (parentsOf model.nodes) id (some (some newParent)) := by
        rw [parentsOf_withChildren, parentsOf_withParent newNonzero, parentsOf_withChildren]
        rw [← isSome_parentsOf, parentsOf_withChildren]
        exact contains_iff.mp present
      have carried (other : UInt32) (down : Nat)
          (lower : Climbs (parentsOf model.nodes) id other down) : Climbs (Function.update
            (parentsOf model.nodes) id (some (some newParent))) id other down := by
        refine lower.update_top (wellFormed.tree.rooted other ?_)
        cases lower with
        | refl => exact contains_iff.mp present
        | child link => rw [link]; rfl
      rw [shallow_relink_iff wellFormed kept rfl id newParent parents hasParent
        (Model.WellFormed.not_above_of_climb cycle newNonzero) (parents ▸ carried) shallow]
      exact ⟨fun all _ => all, fun all => all moves⟩

/-! ## Runs -/

theorem shallow_after_iff (wellFormed : model.WellFormed) (shallow : model.Shallow) {call : Call}
    (called : call.after model = some after) : after.Shallow ↔ model.Spares call := by
  rcases wellFormed.call_after call with ⟨middle, called', _, plain⟩
  rw [called] at called'
  cases called'
  cases relinks : call.relinks with
  | false =>
    refine iff_of_true ((plain relinks).shallow shallow) ?_
    cases call <;> trivial
  | true =>
    cases request : call.edit with
    | none => cases call <;> trivial
    | some edit =>
      rw [Model.WellFormed.after_edit request] at called
      cases called
      cases call <;> cases relinks <;> cases request
      all_goals rw [Model.WellFormed.leaves_done]
      · exact iff_of_true (shallow_setRoot wellFormed shallow _) trivial
      · exact iff_of_true (shallow_addNode wellFormed shallow _ _ _) trivial
      · exact iff_of_true (shallow_removeNode wellFormed shallow _ _) trivial
      · exact shallow_moveNode_iff wellFormed shallow _ _ _

theorem new_shallow : Model.new.Shallow := by
  intro id present
  cases present

theorem run_cons (call : Call) (calls : List Call) :
    model.run (call :: calls) = (call.after model).bind (·.run calls) := by
  simp [Model.run]

theorem run_append (first second : List Call) :
    model.run (first ++ second) = (model.run first).bind (·.run second) := by
  simp [Model.run, List.foldlM_append]

theorem run_snoc (calls : List Call) (call : Call) :
    model.run (calls ++ [call]) = (model.run calls).bind call.after := by
  simp [Model.run, List.foldlM_append]

/-- Whatever is asked of a fresh model, all its nodes stay within `maxDepth` of the
root exactly where every move that was carried out had room for the whole subtree. -/
theorem runs_shallow_iff (calls : List Call) :
    (∀ before rest model, calls = before ++ rest → Model.new.run before = some model →
      model.Shallow) ↔
    ∀ before call rest model, calls = before ++ call :: rest →
      Model.new.run before = some model → model.Spares call := by
  constructor
  · intro bounded before call rest model split run
    rcases wellFormed_new.run before with ⟨model', run', wellFormed⟩
    rw [run] at run'
    cases run'
    rcases wellFormed.call_after call with ⟨after, called, _, _⟩
    refine (shallow_after_iff wellFormed (bounded before (call :: rest) model split run)
      called).mp ?_
    refine bounded (before ++ [call]) rest after (by simp [split]) ?_
    rw [run_snoc, run]
    exact called
  · intro room before
    induction before using List.reverseRecOn with
    | nil =>
      intro rest model _ run
      cases run
      exact new_shallow
    | append_singleton before call induction =>
      intro rest after split run
      have split' : calls = before ++ call :: rest := by simp [split]
      rcases wellFormed_new.run before with ⟨model, ran, wellFormed⟩
      rw [run_snoc, ran] at run
      exact (shallow_after_iff wellFormed (induction (call :: rest) model split' ran) run).mpr
        (room before call rest model split' ran)

/-! ## A subtree moved too deep -/

def Model.hung (model : Model) (id parent index : UInt32) : Model :=
  { model with
    nodes := updateAt parent (withChildren (insertChild index id))
      (model.nodes.insert id (Node.new parent))
    dirtyStructural := true }

theorem hung_parents (model : Model) (id : UInt32) {parent : UInt32} (named : parent ≠ 0)
    (index : UInt32) :
    parentsOf (model.hung id parent index).nodes =
      Function.update (parentsOf model.nodes) id (some (some parent)) := by
  rw [Model.hung, parentsOf_withChildren, parentsOf_insert, up_new named]

theorem hung_contains (model : Model) (id other : UInt32) {parent : UInt32} (named : parent ≠ 0)
    (index : UInt32) :
    (model.hung id parent index).contains other ↔ other = id ∨ model.contains other := by
  rw [contains_iff, hung_parents model id named, contains_iff]
  by_cases same : other = id
  · simp [same]
  · simp [same]

theorem hung_len (model : Model) {id parent : UInt32} (named : parent ≠ 0)
    (fresh : ¬model.contains id) (index : UInt32) :
    (model.hung id parent index).len = model.len + 1 := by
  have keys : (model.hung id parent index).nodes.keys = insert id model.nodes.keys := by
    ext other
    rw [mem_keys_iff, ← contains_iff, hung_contains model _ _ named, Finset.mem_insert, mem_keys_iff,
      contains_iff]
  have absent : id ∉ model.nodes.keys := by rwa [mem_keys_iff, ← contains_iff]
  rw [Model.len, keys, Finset.card_insert_of_notMem absent, Model.len]

theorem addNode_after {id parent : UInt32} (named : id ≠ 0) (fresh : ¬model.contains id)
    (hasParent : model.contains parent) (room : model.depthOf parent < maxDepth)
    (space : model.len < modelCap) (index : UInt32) :
    (Call.addNode id parent index).after model = some (model.hung id parent index) := by
  have request : (Call.addNode id parent index).edit = some (addNode id parent index).done := rfl
  rw [Model.WellFormed.after_edit request, Model.WellFormed.leaves_done]
  have refuses : ¬(¬model.contains parent ∨ maxDepth ≤ model.depthOf parent) := by
    rw [not_or, not_not]
    exact ⟨hasParent, Nat.not_le.mpr room⟩
  simp only [addNode, leaves_get_bind, leaves_ite, leaves_throw, leaves_set]
  rw [if_neg named, if_neg fresh, if_neg refuses, if_neg (Nat.not_le.mpr space), Model.hung]

def branch (parent : UInt32) : List UInt32 → List Call
  | [] => []
  | id :: ids => .addNode id parent 0 :: branch id ids

theorem run_branch {parent : UInt32} (ids : List UInt32) {links : Nat}
    (wellFormed : model.WellFormed) (hasParent : model.contains parent)
    (depth : Climbs (parentsOf model.nodes) model.root parent links)
    (room : links + ids.length < maxDepth) (space : model.len + ids.length ≤ modelCap)
    (named : 0 ∉ ids) (distinct : ids.Nodup) (fresh : ∀ id ∈ ids, ¬model.contains id) :
    ∃ after, model.run (branch parent ids) = some after ∧ after.WellFormed ∧
      after.root = model.root ∧ after.len = model.len + ids.length ∧
      (∀ id, after.contains id ↔ id ∈ ids ∨ model.contains id) ∧
      (∀ id up, parentsOf model.nodes id = some (some up) →
        parentsOf after.nodes id = some (some up)) ∧
      (model.Shallow → after.Shallow) ∧
      ∀ place (within : place < ids.length),
        Climbs (parentsOf after.nodes) parent ids[place] (place + 1) := by
  induction ids generalizing model parent links with
  | nil => exact ⟨model, rfl, wellFormed, rfl, rfl, by simp, fun _ _ link => link, id, by simp⟩
  | cons id ids induction =>
    rw [List.length_cons] at room space
    have nonzero : id ≠ 0 := fun zero => named (zero ▸ List.mem_cons_self)
    have absent : ¬model.contains id := fresh id List.mem_cons_self
    have depthOf : model.depthOf parent < maxDepth := by
      rw [wellFormed.depthOf_eq hasParent depth]
      omega
    have parentNamed := wellFormed.ne_zero hasParent
    have called := addNode_after nonzero absent hasParent depthOf (by omega) 0
    rcases wellFormed.call_after (.addNode id parent 0) with ⟨grown, called', kept, _⟩
    rw [called] at called'
    cases called'
    have parents := hung_parents model id parentNamed 0
    have same (other up : UInt32) (link : parentsOf model.nodes other = some (some up)) :
        parentsOf (model.hung id parent 0).nodes other = some (some up) := by
      have different : other ≠ id := by
        rintro rfl
        rw [contains_iff, link] at absent
        exact absent rfl
      rw [parents, Function.update_of_ne different, link]
    have link : parentsOf (model.hung id parent 0).nodes id = some (some parent) := by
      rw [parents, Function.update_self]
    have deeper : Climbs (parentsOf (model.hung id parent 0).nodes)
        (model.hung id parent 0).root id (links + 1) := .child link (depth.mono same)
    have contains (other : UInt32) := hung_contains model id other parentNamed 0
    rcases induction kept ((contains id).mpr (.inl rfl)) deeper (by omega)
        (by rw [hung_len model parentNamed absent]; omega)
        (fun member => named (List.mem_cons_of_mem _ member)) (List.nodup_cons.mp distinct).2
        (fun other member => by
          rw [contains, not_or]
          refine ⟨?_, fresh other (List.mem_cons_of_mem _ member)⟩
          rintro rfl
          exact (List.nodup_cons.mp distinct).1 member) with
      ⟨after, run, ended, root, len, all, carried, shallow, places⟩
    refine ⟨after, ?_, ended, root, ?_, fun other => ?_,
      fun other up link => carried other up (same other up link),
      fun before => shallow ((shallow_after_iff wellFormed before called).mpr trivial),
      fun place within => ?_⟩
    · rw [branch, Model.run, List.foldlM_cons, called]
      exact run
    · rw [len, hung_len model parentNamed absent, List.length_cons]
      omega
    · rw [all, contains, List.mem_cons]
      tauto
    · have first : Climbs (parentsOf after.nodes) parent id 1 :=
        .child (carried id parent link) .refl
      cases place with
      | zero => exact first
      | succ place =>
        have rest := first.trans (places place (Nat.lt_of_succ_lt_succ within))
        rw [Nat.add_comm 1] at rest
        exact rest

theorem climb_of_climbs (wellFormed : model.WellFormed) {id current : UInt32} {links : Nat}
    (present : model.contains current)
    (climbs : Climbs (parentsOf model.nodes) model.root current links)
    (apart : ¬Above (parentsOf model.nodes) id current) (fuel : Nat) (enough : links < fuel) :
    model.climb id fuel current = some 0 := by
  have top := wellFormed.root_orphan present
  induction climbs generalizing fuel with
  | refl =>
    rcases Option.map_eq_some_iff.mp top.2 with ⟨node, found, orphan⟩
    have different : model.root ≠ id := by
      rintro rfl
      exact apart .refl
    have past : model.parentOr0 model.root = 0 := by
      rw [Model.parentOr0, found]
      exact up_eq_none.mp orphan
    cases fuel with
    | zero => cases enough
    | succ fuel => rw [Model.climb, if_neg different, if_pos past]
  | @child current parent links link rest induction =>
    have up := Model.WellFormed.parentOr0_of_link link
    have different : current ≠ id := by
      rintro rfl
      exact apart .refl
    cases fuel with
    | zero => cases enough
    | succ fuel =>
      rw [Model.climb, if_neg different, up.1, if_neg up.2]
      exact induction (contains_iff.mpr (wellFormed.tree.parent_present link))
        (fun above => apart (.child link above)) fuel (Nat.lt_of_succ_lt_succ enough)

def idsFrom (first count : Nat) : List UInt32 := (List.range count).map fun n => .ofNat (n + first)

theorem toNat_idsFrom {first count n : Nat} (small : count + first ≤ 2 ^ 32)
    (within : n ∈ List.range count) : (UInt32.ofNat (n + first)).toNat = n + first := by
  rw [List.mem_range] at within
  exact UInt32.toNat_ofNat_of_lt' (by simp only [UInt32.size]; omega)

theorem mem_idsFrom {first count : Nat} {id : UInt32} (small : count + first ≤ 2 ^ 32)
    (member : id ∈ idsFrom first count) : first ≤ id.toNat ∧ id.toNat < count + first := by
  rcases List.mem_map.mp member with ⟨n, within, rfl⟩
  rw [toNat_idsFrom small within]
  rw [List.mem_range] at within
  omega

theorem nodup_idsFrom {first count : Nat} (small : count + first ≤ 2 ^ 32) :
    (idsFrom first count).Nodup := by
  refine List.Nodup.map_on (fun one below other below' same => ?_) List.nodup_range
  have same' := congrArg UInt32.toNat same
  rw [toNat_idsFrom small below, toNat_idsFrom small below'] at same'
  omega

@[simp] theorem length_idsFrom (first count : Nat) : (idsFrom first count).length = count := by
  simp [idsFrom]

def chain : List UInt32 := idsFrom 3 510

/-- A chain as deep as adding goes, a branch of three beside it, and the branch moved
under the chain's last but one. -/
def descent : List Call :=
  .setRoot 1 :: (branch 1 [2] ++ (branch 2 chain ++ (branch 1 [513] ++ (branch 513 [514, 515] ++
    [.moveNode 513 511 0]))))

/-- The bound fails of a run that moves a subtree. -/
theorem descent_too_deep : ∃ model, Model.new.run descent = some model ∧ ¬model.Shallow := by
  rcases wellFormed_new.call_after (.setRoot 1) with ⟨planted, called, wellFormed, _⟩
  have shallow : planted.Shallow := (shallow_after_iff wellFormed_new new_shallow called).mpr trivial
  have parents : parentsOf planted.nodes = Function.update (parentsOf ∅) 1 (some none) := by
    cases called
    exact parentsOf_insert 1 (Node.new 0) ∅
  have root : planted.root = 1 := by
    cases called
    rfl
  have len : planted.len = 1 := by
    cases called
    rfl
  have sole (id : UInt32) : planted.contains id ↔ id = 1 := by
    rw [contains_iff, parents]
    by_cases same : id = 1
    · simp [same]
    · rw [Function.update_of_ne same]
      simp [same, parentsOf]
  have top : Climbs (parentsOf planted.nodes) planted.root 1 0 := root ▸ .refl
  have bounds : maxDepth = 512 ∧ modelCap = 131072 := ⟨rfl, rfl⟩
  -- the chain, first its top node and then the rest
  rcases run_branch [2] wellFormed ((sole 1).mpr rfl) top (by simp [bounds]) (by simp [bounds, len])
      (by decide) (by decide) (by simp [sole]) with
    ⟨first, run₁, wellFormed₁, root₁, len₁, all₁, carried₁, shallow₁, places₁⟩
  have second₁ : Climbs (parentsOf first.nodes) first.root 2 1 := by
    rw [root₁, root]
    exact places₁ 0 (by decide)
  rcases run_branch chain wellFormed₁ ((all₁ 2).mpr (.inl (by decide))) second₁
      (by simp [bounds, chain]) (by simp [bounds, chain, len₁, len])
      (fun member => by simpa using (mem_idsFrom (by decide) member).1) (nodup_idsFrom (by decide))
      (fun id member => by
        have range := mem_idsFrom (by decide) member
        rw [all₁, sole]
        rintro (low | rfl)
        · rw [List.mem_singleton.mp low] at range
          simp at range
        · simp at range) with
    ⟨second, run₂, wellFormed₂, root₂, len₂, all₂, carried₂, shallow₂, places₂⟩
  -- the branch of three, first its top node and then the rest
  have high (id : UInt32) (above : 512 < id.toNat) : ¬second.contains id := by
    rw [all₂, all₁, sole]
    rintro (member | low | rfl)
    · exact Nat.not_lt.mpr above (mem_idsFrom (by decide) member).2
    · rw [List.mem_singleton.mp low] at above
      simp at above
    · simp at above
  have root₂' : second.root = 1 := root₂.trans (root₁.trans root)
  have chainLength : chain.length = 510 := by simp [chain]
  have top₂ : Climbs (parentsOf second.nodes) second.root 1 0 := root₂' ▸ .refl
  rcases run_branch [513] wellFormed₂ ((all₂ 1).mpr (.inr ((all₁ 1).mpr (.inr ((sole 1).mpr rfl)))))
      top₂ (by simp [bounds]) (by simp [bounds, len₂, len₁, len, chainLength]) (by decide)
      (by decide) (fun id member => high id (by rw [List.mem_singleton.mp member]; decide)) with
    ⟨third, run₃, wellFormed₃, root₃, len₃, all₃, carried₃, shallow₃, places₃⟩
  have third₁ : Climbs (parentsOf third.nodes) third.root 513 1 := by
    rw [root₃, root₂']
    exact places₃ 0 (by decide)
  have fresh₃ (id : UInt32) (above : 513 < id.toNat) : ¬third.contains id := by
    rw [all₃]
    rintro (same | old)
    · rw [List.mem_singleton.mp same] at above
      simp at above
    · exact high id (Nat.lt_of_succ_lt above) old
  rcases run_branch [514, 515] wellFormed₃ ((all₃ 513).mpr (.inl (by decide))) third₁
      (by simp [bounds]) (by simp [bounds, len₃, len₂, len₁, len, chainLength]) (by decide)
      (by decide) (fun id member => fresh₃ id (by
        rcases List.mem_cons.mp member with rfl | last
        · decide
        · rw [List.mem_singleton.mp last]
          decide)) with
    ⟨fourth, run₄, wellFormed₄, root₄, len₄, all₄, carried₄, shallow₄, places₄⟩
  rcases wellFormed₄.call_after (.moveNode 513 511 0) with ⟨after, moved, _, _⟩
  refine ⟨after, ?_, ?_⟩
  · rw [descent, run_cons, called, Option.bind_some, run_append, run₁, Option.bind_some,
      run_append, run₂, Option.bind_some, run_append, run₃, Option.bind_some, run_append, run₄,
      Option.bind_some, run_cons, moved]
    rfl
  · rw [shallow_after_iff wellFormed₄ (shallow₄ (shallow₃ (shallow₂ (shallow₁ shallow)))) moved]
    have root₄' : fourth.root = 1 := root₄.trans (root₃.trans root₂')
    have step₁ : Climbs (parentsOf fourth.nodes) 1 2 1 :=
      (((places₁ 0 (by decide)).mono carried₂).mono carried₃).mono carried₄
    have step₂ : Climbs (parentsOf fourth.nodes) 2 511 509 := by
      have within : 508 < chain.length := by omega
      have reached := places₂ 508 within
      have last : chain[508] = 511 := by simp [chain, idsFrom]
      rw [last] at reached
      exact (reached.mono carried₃).mono carried₄
    have upper : Climbs (parentsOf fourth.nodes) fourth.root 511 510 := root₄' ▸ step₁.trans step₂
    have lower : Climbs (parentsOf fourth.nodes) 513 515 2 := places₄ 1 (by decide)
    have present (id : UInt32) (old : third.contains id) : fourth.contains id :=
      (all₄ id).mpr (.inr old)
    have has₅₁₁ : fourth.contains 511 := contains_iff.mpr upper.present
    have has₅₁₃ : fourth.contains 513 := present 513 ((all₃ 513).mpr (.inl (by decide)))
    have apart : ¬Above (parentsOf fourth.nodes) 513 511 := by
      intro above
      rcases above_iff_climbs.mp above with ⟨links, climbs⟩
      have side : Climbs (parentsOf fourth.nodes) fourth.root 513 1 := by
        rw [root₄, root₃, root₂']
        exact (places₃ 0 (by decide)).mono carried₄
      have count := wellFormed₄.climbs_unique has₅₁₁ upper (side.trans climbs)
      have links' : links = 509 := by omega
      have same := climbs.same_top (links' ▸ step₂)
      exact absurd same (by decide)
    have climbed := climb_of_climbs wellFormed₄ has₅₁₁ upper apart (fourth.len + 1)
      (by simp [len₄, len₃, len₂, len₁, len, chainLength])
    have depth := wellFormed₄.depthOf_eq has₅₁₁ upper
    have moves : fourth.moves 513 511 := by
      simp [Model.moves, has₅₁₁, has₅₁₃, root₄', climbed, depth, bounds]
    intro spares
    have room := spares moves 515 510 2 upper lower
    rw [bounds.1] at room
    omega

end EclipseOS.Abyss.Semantic
