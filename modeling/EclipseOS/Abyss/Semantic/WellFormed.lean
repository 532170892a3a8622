import EclipseOS.Abyss.Semantic.Links

/-! # A semantic tree stays a tree

Every call, refused or not, returns and leaves a model that its own structure check
accepts. -/

namespace EclipseOS.Abyss.Semantic

open Foundation PolicyEval

variable {model : Model}

theorem wellFormed_new : Model.new.WellFormed where
  tree :=
    { listed := fun _ _ => iff_of_false (by intro member; cases member) (by intro link; cases link)
      distinct := fun _ => .nil
      rooted := fun _ present => by cases present
      sole := fun _ => iff_of_false (by intro top; cases top) (by intro named; cases named) }
  zero := rfl

theorem rootOf_eq_some {root id : UInt32} : rootOf root = some id ↔ root = id ∧ id ≠ 0 := by
  unfold rootOf
  split
  · rename_i zero
    simp only [zero, reduceCtorEq, false_iff, not_and, not_not]
    exact fun same => same.symm
  · rename_i named
    simp only [Option.some.injEq]
    exact ⟨fun same => ⟨same, same ▸ named⟩, And.left⟩

theorem contains_iff {id : UInt32} : model.contains id ↔ (parentsOf model.nodes id).isSome := by
  rw [isSome_parentsOf]
  rfl

namespace Model.WellFormed

theorem ne_zero (wellFormed : model.WellFormed) {id : UInt32} (present : model.contains id) :
    id ≠ 0 := by
  rintro rfl
  rw [Model.contains, wellFormed.zero] at present
  cases present

/-! ## Structural requests -/

theorem setRoot (wellFormed : model.WellFormed) (id : UInt32) :
    (leaves (setRoot id) model).WellFormed := by
  simp only [Semantic.setRoot, leaves_get_bind, leaves_ite, leaves_throw, leaves_pure, leaves_set]
  split_ifs with zero same taken
  · exact wellFormed
  · exact wellFormed
  · exact wellFormed
  · have rootless : rootOf model.root = none := by
      rw [rootOf, if_pos (not_not.mp (not_or.mp taken).1)]
    have empty := wellFormed.tree
    rw [rootless] at empty
    have parents : parentsOf (model.nodes.insert id (Node.new 0)) =
        Function.update (parentsOf model.nodes) id (some none) := parentsOf_insert ..
    have children : childrenOf (model.nodes.insert id (Node.new 0)) = fun _ => [] := by
      funext other
      by_cases same : other = id
      · rw [same, childrenOf_some (Finmap.lookup_insert _)]
        rfl
      · rw [childrenOf, Finmap.lookup_insert_of_ne _ same]
        rw [parentsOf_eq_none.mp (empty.absent_of_rootless other)]
        rfl
    have named : rootOf id = some id := rootOf_eq_some.mpr ⟨rfl, zero⟩
    refine ⟨?_, ?_⟩
    · show Tree (parentsOf (model.nodes.insert id (Node.new 0)))
        (childrenOf (model.nodes.insert id (Node.new 0))) (rootOf id)
      rw [parents, children, named]
      exact empty.single id
    · exact (Finmap.lookup_insert_of_ne _ (Ne.symm zero)).trans wellFormed.zero

theorem addNode (wellFormed : model.WellFormed) (id parent index : UInt32) :
    (leaves (addNode id parent index) model).WellFormed := by
  simp only [Semantic.addNode, leaves_get_bind, leaves_ite, leaves_throw, leaves_set]
  split_ifs with zero taken missing full
  · exact wellFormed
  · exact wellFormed
  · exact wellFormed
  · exact wellFormed
  · have tree := wellFormed.tree
    have hasParent : model.contains parent := not_not.mp (not_or.mp missing).1
    have parentNonzero := wellFormed.ne_zero hasParent
    have absent : model.nodes.lookup id = none := by simpa [Model.contains] using taken
    have parentPresent := contains_iff.mp hasParent
    have different : parent ≠ id := by
      rintro rfl
      exact taken hasParent
    rcases Option.isSome_iff_exists.mp hasParent with ⟨up, found⟩
    have still : (model.nodes.insert id (Node.new parent)).lookup parent = some up := by
      rw [Finmap.lookup_insert_of_ne _ different, found]
    have parents : parentsOf (updateAt parent (withChildren (insertChild index id))
        (model.nodes.insert id (Node.new parent))) =
          Function.update (parentsOf model.nodes) id (some (some parent)) := by
      rw [parentsOf_withChildren, parentsOf_insert, up_new parentNonzero]
    have orphan (other : UInt32) : id ∉ childrenOf model.nodes other := by
      rw [tree.listed, parentsOf, absent]
      intro link
      cases link
    have before (other : UInt32) : childrenOf (model.nodes.insert id (Node.new parent)) other =
        childrenOf model.nodes other := by
      by_cases same : other = id
      · rw [same, childrenOf_some (Finmap.lookup_insert _), childrenOf_none absent]
        rfl
      · rw [childrenOf, Finmap.lookup_insert_of_ne _ same, childrenOf]
    refine ⟨?_, ?_⟩
    · rw [parents]
      refine tree.relink parentPresent ?_ ?_ ?_ ?_
      · intro named
        rw [← tree.sole, parentsOf, absent] at named
        cases named
      · intro above
        have present := (tree.rooted parent parentPresent).above_present above
        rw [isSome_parentsOf, absent] at present
        cases present
      · intro other child
        rw [childrenOf_withChildren _ still, before]
        by_cases same : other = parent
        · rw [if_pos same, mem_insertChild]
          by_cases new : child = id
          · simp [new, same]
          · simp [new]
        · rw [if_neg same]
          by_cases new : child = id
          · simp [new, same, orphan]
          · simp [new]
      · intro other
        rw [childrenOf_withChildren _ still, before]
        split
        · exact nodup_insertChild (orphan other) (tree.distinct other)
        · exact tree.distinct other
    · rw [lookup_updateAt, if_neg (Ne.symm parentNonzero),
        Finmap.lookup_insert_of_ne _ (Ne.symm zero)]
      exact wellFormed.zero

theorem parentOr0_of_link {id parent : UInt32}
    (link : parentsOf model.nodes id = some (some parent)) :
    model.parentOr0 id = parent ∧ parent ≠ 0 := by
  rcases Option.map_eq_some_iff.mp link with ⟨node, found, named⟩
  rw [Model.parentOr0, found]
  exact up_eq_some.mp named

theorem not_above_of_climb {id : UInt32} {fuel : Nat} {current : UInt32}
    (climbed : model.climb id fuel current = some 0) (named : current ≠ 0) :
    ¬Above (parentsOf model.nodes) id current := by
  induction fuel generalizing current with
  | zero =>
    cases climbed
    exact absurd rfl named
  | succ fuel induction =>
    rw [Model.climb] at climbed
    split at climbed
    · cases climbed
    · rename_i different
      intro above
      cases above with
      | refl => exact different rfl
      | child link rest =>
        have up := parentOr0_of_link link
        rw [up.1, if_neg up.2] at climbed
        exact induction climbed up.2 rest

theorem moveNode (wellFormed : model.WellFormed) (id newParent index : UInt32) :
    (leaves (moveNode id newParent index) model).WellFormed := by
  simp only [Semantic.moveNode, leaves_get_bind]
  cases found : model.nodes.lookup id with
  | none => exact wellFormed
  | some node =>
    simp only [leaves_ite, leaves_throw, leaves_set]
    split_ifs with missing cycle deep
    · exact wellFormed
    · exact wellFormed
    · exact wellFormed
    · have tree := wellFormed.tree
      have hasParent : model.contains newParent := not_not.mp (not_or.mp missing).1
      have newNonzero := wellFormed.ne_zero hasParent
      have notRoot : rootOf model.root ≠ some id := by
        intro named
        exact (not_or.mp missing).2 (rootOf_eq_some.mp named).1.symm
      have apart := not_above_of_climb (not_not.mp cycle) newNonzero
      have idNonzero : id ≠ 0 := wellFormed.ne_zero (by rw [Model.contains, found]; rfl)
      have hung : parentsOf model.nodes id = some (some node.parent) := by
        rw [parentsOf_some found]
        cases up : node.up with
        | none =>
          exact absurd ((tree.sole id).mp (by rw [parentsOf_some found, up])) notRoot
        | some parent => rw [(up_eq_some.mp up).1]
      have different : newParent ≠ id := by
        rintro rfl
        exact apart .refl
      rcases Option.isSome_iff_exists.mp
        (isSome_parentsOf.symm.trans (tree.parent_present hung)) with ⟨up, oldFound⟩
      -- the three writes: out of the old list, the new parent, into the new list
      let detached := updateAt node.parent (withChildren (·.filter (· ≠ id))) model.nodes
      let moved := updateAt id (fun node => { node with parent := newParent }) detached
      have detachedParents : parentsOf detached = parentsOf model.nodes :=
        parentsOf_withChildren _ _ _
      have still : (detached.lookup id).isSome := by
        rw [← isSome_parentsOf, detachedParents, hung]
        rfl
      have movedParents : parentsOf moved =
          Function.update (parentsOf model.nodes) id (some (some newParent)) := by
        rw [← detachedParents]
        exact parentsOf_withParent newNonzero still
      have movedChildren (other : UInt32) : childrenOf moved other =
          if other = node.parent then (childrenOf model.nodes other).filter (· ≠ id)
          else childrenOf model.nodes other := by
        rw [← childrenOf_withChildren _ oldFound, childrenOf, lookup_updateAt]
        split
        · rename_i same
          rw [childrenOf, same]
          cases detached.lookup id <;> rfl
        · rfl
      have members (other child : UInt32) : child ∈ childrenOf moved other ↔
          child ≠ id ∧ child ∈ childrenOf model.nodes other := by
        rw [movedChildren]
        split
        · simp [and_comm]
        · rename_i elsewhere
          refine ⟨fun member => ⟨?_, member⟩, And.right⟩
          rintro rfl
          have link := (tree.listed other child).mp member
          rw [hung] at link
          cases link
          exact elsewhere rfl
      have hasNew : ∃ node, moved.lookup newParent = some node := by
        refine Option.isSome_iff_exists.mp ?_
        rw [← isSome_parentsOf, movedParents, Function.update_of_ne different]
        exact contains_iff.mp hasParent
      rcases hasNew with ⟨there, hasNew⟩
      refine ⟨?_, ?_⟩
      · show Tree (parentsOf (updateAt newParent (withChildren (insertChild index id)) moved))
          (childrenOf (updateAt newParent (withChildren (insertChild index id)) moved))
          (rootOf model.root)
        rw [parentsOf_withChildren, movedParents]
        refine tree.relink (contains_iff.mp hasParent) notRoot apart ?_ ?_
        · intro other child
          rw [childrenOf_withChildren _ hasNew]
          by_cases same : other = newParent
          · rw [if_pos same, mem_insertChild, members]
            by_cases new : child = id
            · simp [new, same]
            · simp [new]
          · rw [if_neg same, members]
            by_cases new : child = id
            · simp [new, same]
            · simp [new]
        · intro other
          rw [childrenOf_withChildren _ hasNew]
          have distinct : (childrenOf moved other).Nodup := by
            rw [movedChildren]
            split
            · exact (tree.distinct other).filter _
            · exact tree.distinct other
          split
          · exact nodup_insertChild (fun member => ((members other id).mp member).1 rfl) distinct
          · exact distinct
      · show (updateAt newParent (withChildren (insertChild index id)) moved).lookup 0 = none
        rw [← parentsOf_eq_none, parentsOf_withChildren, movedParents,
          Function.update_of_ne (Ne.symm idNonzero), parentsOf_eq_none]
        exact wellFormed.zero

end Model.WellFormed

/-! ## Removal -/

/-- The removal loop has taken some nodes under an id out and has a stack of others
to take. -/
structure Pruning (nodes : Nodes) (id : UInt32) (left : Nodes) (stack : List UInt32) : Prop where
  kept : ∀ other, left.lookup other = none ∨ left.lookup other = nodes.lookup other
  closed : ∀ other, left.lookup other = none → ∀ child ∈ childrenOf nodes other,
    child ∈ stack ∨ left.lookup child = none
  below : ∀ other, other ∈ stack ∨ (left.lookup other = none ∧ (nodes.lookup other).isSome) →
    Above (parentsOf nodes) id other
  top : id ∈ stack ∨ left.lookup id = none

namespace Pruning

variable {nodes left : Nodes} {id other : UInt32} {stack : List UInt32}

theorem start (nodes : Nodes) (id : UInt32) : Pruning nodes id nodes [id] where
  kept _ := .inr rfl
  closed other absent child member := by
    rw [childrenOf_none absent] at member
    cases member
  below other among := by
    rcases among with member | ⟨absent, present⟩
    · rw [List.mem_singleton.mp member]
      exact .refl
    · rw [absent] at present
      cases present
  top := .inl (List.mem_singleton_self id)

theorem skip (pruning : Pruning nodes id left (other :: stack))
    (absent : left.lookup other = none) : Pruning nodes id left stack where
  kept := pruning.kept
  closed parent gone child member := by
    rcases pruning.closed parent gone child member with stacked | gone
    · rcases List.mem_cons.mp stacked with rfl | stacked
      · exact .inr absent
      · exact .inl stacked
    · exact .inr gone
  below child among := pruning.below child (among.imp (List.mem_cons_of_mem _) fun gone => gone)
  top := by
    rcases pruning.top with stacked | gone
    · rcases List.mem_cons.mp stacked with rfl | stacked
      · exact .inr absent
      · exact .inl stacked
    · exact .inr gone

theorem take {node : Node} {children : List UInt32} {root : Option UInt32}
    (tree : Tree (parentsOf nodes) (childrenOf nodes) root)
    (pruning : Pruning nodes id left (other :: stack))
    (found : left.lookup other = some node) (perm : children.Perm node.children) :
    Pruning nodes id (left.erase other) (children ++ stack) := by
  have erased (at' : UInt32) : (left.erase other).lookup at' =
      if at' = other then none else left.lookup at' := by
    by_cases same : at' = other
    · rw [if_pos same, same, Finmap.lookup_erase]
    · rw [if_neg same, Finmap.lookup_erase_ne same]
  have original : nodes.lookup other = some node := by
    rcases pruning.kept other with gone | kept
    · rw [found] at gone
      cases gone
    · rw [← kept, found]
  have pushed (child : UInt32) : child ∈ children ↔ child ∈ childrenOf nodes other := by
    rw [perm.mem_iff, childrenOf_some original]
  have here := pruning.below other (.inl List.mem_cons_self)
  refine ⟨fun at' => ?_, fun parent gone child member => ?_, fun child among => ?_, ?_⟩
  · rw [erased]
    split
    · exact .inl rfl
    · exact pruning.kept at'
  · rw [erased] at gone ⊢
    by_cases same : parent = other
    · exact .inl (List.mem_append_left _ ((pushed child).mpr (same ▸ member)))
    · rw [if_neg same] at gone
      rcases pruning.closed parent gone child member with stacked | gone
      · rcases List.mem_cons.mp stacked with rfl | stacked
        · exact .inr (if_pos rfl)
        · exact .inl (List.mem_append_right _ stacked)
      · right
        split
        · rfl
        · exact gone
  · rcases among with stacked | ⟨gone, present⟩
    · rcases List.mem_append.mp stacked with member | stacked
      · exact .child ((tree.listed other child).mp ((pushed child).mp member)) here
      · exact pruning.below child (.inl (List.mem_cons_of_mem _ stacked))
    · rw [erased] at gone
      by_cases same : child = other
      · exact same ▸ here
      · rw [if_neg same] at gone
        exact pruning.below child (.inr ⟨gone, present⟩)
  · rcases pruning.top with stacked | gone
    · rcases List.mem_cons.mp stacked with rfl | stacked
      · exact .inr (by rw [erased, if_pos rfl])
      · exact .inl (List.mem_append_right _ stacked)
    · right
      rw [erased]
      split
      · rfl
      · exact gone

theorem removeAll {root : Option UInt32} (tree : Tree (parentsOf nodes) (childrenOf nodes) root)
    (sec : Secs) (now : Instant) (hadSecret : Bool) (pruning : Pruning nodes id left stack) :
    Pruning nodes id (removeAll sec now left hadSecret stack).1 [] := by
  induction left, hadSecret, stack using removeAll.induct sec now with
  | case1 left hadSecret =>
    rw [Semantic.removeAll]
    exact pruning
  | case2 left hadSecret other stack node found induction =>
    rw [Semantic.removeAll]
    split
    · rename_i node' found'
      rw [found] at found'
      cases found'
      exact induction (pruning.take tree found node.children.reverse_perm)
    · rename_i absent
      rw [found] at absent
      cases absent
  | case3 left hadSecret other stack absent induction =>
    rw [Semantic.removeAll]
    split
    · rename_i node found
      rw [absent] at found
      cases found
    · exact induction (pruning.skip absent)

theorem finished {root : Option UInt32} (tree : Tree (parentsOf nodes) (childrenOf nodes) root)
    (pruning : Pruning nodes id left []) (other : UInt32) :
    (Above (parentsOf nodes) id other → left.lookup other = none) ∧
      (¬Above (parentsOf nodes) id other → left.lookup other = nodes.lookup other) := by
  constructor
  · intro above
    induction above with
    | refl => simpa using pruning.top
    | child link rest induction =>
      simpa using pruning.closed _ induction _ ((tree.listed _ _).mpr link)
  · intro apart
    rcases pruning.kept other with gone | kept
    · cases present : nodes.lookup other with
      | none => exact gone
      | some node =>
        exact absurd (pruning.below other (.inr ⟨gone, by rw [present]; rfl⟩)) apart
    · exact kept

end Pruning

namespace Model.WellFormed

theorem removeNode (wellFormed : model.WellFormed) (id : UInt32) (now : Instant) :
    (leaves (removeNode id now) model).WellFormed := by
  have tree := wellFormed.tree
  cases found : model.nodes.lookup id with
  | none =>
    rw [Semantic.removeNode, leaves_error (run_bind_error (run_nodeAt_none found))]
    exact wellFormed
  | some node =>
    rw [Semantic.removeNode, leaves_bind_ok (run_nodeAt_some found), leaves_get_bind]
    have pruning := (Pruning.start model.nodes id).removeAll tree model.sec now false
    generalize Semantic.removeAll model.sec now model.nodes false [id] = result at pruning ⊢
    rcases result with ⟨left, hadSecret⟩
    have what := pruning.finished tree
    have gone (other : UInt32) (above : Above (parentsOf model.nodes) id other) :
        parentsOf left other = none :=
      parentsOf_eq_none.mpr ((what other).1 above)
    have kept (other : UInt32) (apart : ¬Above (parentsOf model.nodes) id other) :
        parentsOf left other = parentsOf model.nodes other := by
      rw [parentsOf, (what other).2 apart, parentsOf]
    -- of the children of a node that stays, only the removed id itself goes
    have members (other child : UInt32) : child ∈ childrenOf left other ∧ child ≠ id ↔
        child ∈ childrenOf model.nodes other ∧ ¬Above (parentsOf model.nodes) id child := by
      by_cases above : Above (parentsOf model.nodes) id other
      · rw [childrenOf_none ((what other).1 above)]
        refine iff_of_false (fun both => by cases both.1) fun both => both.2 ?_
        exact .child ((tree.listed other child).mp both.1) above
      · rw [childrenOf, (what other).2 above, ← childrenOf]
        refine and_congr_right fun member => ⟨fun different below => ?_, ?_⟩
        · cases below with
          | refl => exact different rfl
          | child link rest =>
            rw [(tree.listed other child).mp member] at link
            cases link
            exact above rest
        · rintro apart rfl
          exact apart .refl
    have distinct (other : UInt32) : (childrenOf left other).Nodup := by
      rcases pruning.kept other with gone | kept
      · rw [childrenOf_none gone]
        exact .nil
      · rw [childrenOf, kept, ← childrenOf]
        exact tree.distinct other
    have zero : left.lookup 0 = none := by
      rcases pruning.kept 0 with gone | kept
      · exact gone
      · rw [kept, wellFormed.zero]
    have fewer (other child : UInt32) (member : child ∈ childrenOf left other) :
        parentsOf model.nodes child = some (some other) := by
      rcases pruning.kept other with gone | kept
      · rw [childrenOf_none gone] at member
        cases member
      · rw [childrenOf, kept, ← childrenOf] at member
        exact (tree.listed other child).mp member
    by_cases top : node.parent = 0
    · have named : parentsOf model.nodes id = some none := by
        rw [parentsOf_some found, up_eq_none.mpr top]
      simp only [top, if_true, leaves_set]
      refine ⟨tree.prune gone kept (fun other child => ?_) distinct fun other => ?_, zero⟩
      · rw [← members]
        refine ⟨fun member => ⟨member, ?_⟩, And.left⟩
        rintro rfl
        rw [fewer other child member] at named
        cases named
      · refine iff_of_false (by simp [rootOf]) fun both => both.2 ?_
        have same : some id = some other := ((tree.sole id).mp named).symm.trans both.1
        cases same
        exact .refl
    · have hung : parentsOf model.nodes id = some (some node.parent) := by
        rw [parentsOf_some found, up_eq_some.mpr ⟨rfl, top⟩]
      have apart : ¬Above (parentsOf model.nodes) id node.parent :=
        (tree.rooted id (by rw [hung]; rfl)).not_above_parent hung
      rcases Option.isSome_iff_exists.mp
        (isSome_parentsOf.symm.trans (tree.parent_present hung)) with ⟨up, hasParent⟩
      have still := ((what node.parent).2 apart).trans hasParent
      simp only [top, if_false, leaves_set]
      refine ⟨?_, by rw [lookup_updateAt, if_neg (Ne.symm top), zero]⟩
      show Tree (parentsOf (updateAt node.parent (withChildren (·.filter (· ≠ id))) left))
        (childrenOf (updateAt node.parent (withChildren (·.filter (· ≠ id))) left))
        (rootOf model.root)
      rw [parentsOf_withChildren]
      refine tree.prune gone kept (fun other child => ?_) (fun other => ?_) fun other => ?_
      · rw [childrenOf_withChildren _ still, ← members]
        split
        · simp
        · rename_i elsewhere
          refine ⟨fun member => ⟨member, ?_⟩, And.left⟩
          rintro rfl
          have link := fewer other child member
          rw [hung] at link
          cases link
          exact elsewhere rfl
      · rw [childrenOf_withChildren _ still]
        split
        · exact (distinct other).filter _
        · exact distinct other
      · refine ⟨fun named => ⟨named, fun above => ?_⟩, And.left⟩
        have at_root := (tree.sole other).mpr named
        cases above with
        | refl =>
          rw [hung] at at_root
          cases at_root
        | child link rest =>
          rw [link] at at_root
          cases at_root

theorem removeNode_fewer (wellFormed : model.WellFormed) (id : UInt32) (now : Instant)
    (other : UInt32) :
    parentsOf (leaves (Semantic.removeNode id now) model).nodes other = none ∨
      parentsOf (leaves (Semantic.removeNode id now) model).nodes other =
        parentsOf model.nodes other := by
  cases found : model.nodes.lookup id with
  | none =>
    rw [Semantic.removeNode, leaves_error (run_bind_error (run_nodeAt_none found))]
    exact .inr rfl
  | some node =>
    rw [Semantic.removeNode, leaves_bind_ok (run_nodeAt_some found), leaves_get_bind]
    have pruning := (Pruning.start model.nodes id).removeAll wellFormed.tree model.sec now false
    generalize Semantic.removeAll model.sec now model.nodes false [id] = result at pruning ⊢
    rcases result with ⟨left, hadSecret⟩
    have kept : parentsOf left other = none ∨ parentsOf left other = parentsOf model.nodes other := by
      rcases pruning.kept other with gone | kept
      · exact .inl (parentsOf_eq_none.mpr gone)
      · exact .inr (by rw [parentsOf, kept, parentsOf])
    by_cases top : node.parent = 0
    · simpa only [top, if_true, leaves_set] using kept
    · simpa only [top, if_false, leaves_set, parentsOf_withChildren] using kept

end Model.WellFormed

end EclipseOS.Abyss.Semantic
