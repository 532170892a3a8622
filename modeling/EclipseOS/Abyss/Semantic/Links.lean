import EclipseOS.Abyss.Semantic.Refusals
import EclipseOS.Foundation.ParentTree

/-! # What requests write

The requests that link no node anew are put together from a few kinds of write. What
each of these keeps, every such request keeps, refused or not. -/

namespace EclipseOS.Abyss.Semantic

open Foundation PolicyEval

/-- Secret by its own record, whatever the time. -/
def Sec.lasting (sec : Sec) : Bool := sec.class = .secret || sec.password || sec.credential

/-- A relation that holds from before to after each kind of write: to a node but its
links, to a record but what makes it secret for good, and the marks. -/
structure Writes (relation : Model → Model → Prop) : Prop where
  refl : ∀ model, relation model model
  trans : ∀ {first middle last}, relation first middle → relation middle last →
    relation first last
  node : ∀ (model : Model) (id : UInt32) (update : Node → Node),
    (∀ node, (update node).parent = node.parent ∧ (update node).children = node.children) →
      relation model { model with nodes := updateAt id update model.nodes }
  raised : ∀ (model : Model) (id : UInt32) (raise : Sec → Sec),
    (∀ old, model.sec.lookup id = some old → old.lasting → (raise old).lasting) →
      relation model (model.raised id raise)
  held : ∀ (model : Model) (id : UInt32) (old sec : Sec), model.sec.lookup id = some old →
    (old.lasting → sec.lasting) → relation model { model with sec := model.sec.insert id sec }
  structural : ∀ model : Model, relation model { model with dirtyStructural := true }
  value : ∀ model : Model, relation model { model with dirtyValue := true }
  warned : ∀ model : Model, relation model { model with warned := true }

namespace Writes

variable {relation : Model → Model → Prop} {α β : Type}

theorem bind (writes : Writes relation) {edit : Edit α} {next : α → Edit β}
    (first : Preserves relation edit) (rest : ∀ value, Preserves relation (next value)) :
    Preserves relation (edit >>= next) :=
  Preserves.bind writes.trans first rest

theorem pure (writes : Writes relation) (value : α) : Preserves relation (pure value : Edit α) :=
  preserves_pure writes.refl value

theorem throw (writes : Writes relation) (violation : Violation) :
    Preserves relation (throw violation : Edit α) :=
  (inspects_throw violation).preserves writes.refl

theorem get (writes : Writes relation) : Preserves relation (get : Edit Model) :=
  inspects_get.preserves writes.refl

theorem nodeAt (writes : Writes relation) (id : UInt32) : Preserves relation (nodeAt id) :=
  (inspects_nodeAt id).preserves writes.refl

theorem markStructural (writes : Writes relation) : Preserves relation markStructural :=
  preserves_modify writes.structural

theorem markValue (writes : Writes relation) : Preserves relation markValue :=
  preserves_modify writes.value

theorem updateNode (writes : Writes relation) (id : UInt32) {update : Node → Node}
    (keeps : ∀ node, (update node).parent = node.parent ∧
      (update node).children = node.children := by exact fun _ => ⟨rfl, rfl⟩) :
    Preserves relation (updateNode id update) :=
  writes.bind (writes.nodeAt id) fun _ =>
    preserves_modify fun model => writes.node model id update keeps

theorem secRaise (writes : Writes relation) (id : UInt32) {raise : Sec → Sec}
    (raises : ∀ old, old.lasting → (raise old).lasting) :
    Preserves relation (secRaise id raise) := by
  intro model
  rw [leaves_ok (run_secRaise model id raise)]
  exact writes.raised model id raise fun old _ => raises old

theorem setRole (writes : Writes relation) (id role : UInt32) :
    Preserves relation (setRole id role) :=
  writes.bind (writes.updateNode id) fun _ =>
    .ite (writes.bind (writes.secRaise id fun old _ => by simp [Sec.lasting]) fun _ =>
      writes.bind (writes.updateNode id) fun _ => writes.markStructural) writes.markStructural

theorem setValue (writes : Writes relation) (id : UInt32) (value : Value) :
    Preserves relation (setValue id value) :=
  writes.bind writes.get fun _ => writes.bind (writes.updateNode id) fun _ => writes.markValue

theorem setActionLabel (writes : Writes relation) (id verb : UInt32) (label : String) :
    Preserves relation (setActionLabel id verb label) :=
  writes.bind (writes.nodeAt id) fun _ =>
    .ite (writes.bind (writes.updateNode id) fun _ => writes.markValue) (writes.pure _)

theorem setSensitivity (writes : Writes relation) (id «class» : UInt32) :
    Preserves relation (setSensitivity id «class») := by
  refine writes.bind (writes.nodeAt id) fun _ model => ?_
  simp only [leaves_get_bind, leaves_ite, leaves_throw, leaves_pure]
  generalize (if «class» = 0 then Class.public else if «class» = 1 then Class.private
    else Class.secret) = want
  split_ifs with lowers above
  · exact writes.refl model
  · rw [leaves_bind_ok (run_secRaise model id _)]
    refine writes.trans (writes.raised model id _ fun old found lasts => ?_)
      (writes.markStructural _)
    rw [found] at above
    have lower : old.class ≠ .secret := by
      intro secret
      rw [Option.elim_some, secret] at above
      cases want <;> simp [Class.rank] at above
    simp only [Sec.lasting, lower, decide_false, Bool.false_or, Bool.or_eq_true] at lasts
    simp only [Sec.lasting, Bool.or_eq_true]
    tauto
  · exact writes.refl model

theorem setCredential (writes : Writes relation) (id : UInt32) (value : String) :
    Preserves relation (setCredential id value) :=
  .ite
    (writes.bind writes.get fun _ =>
      .ite (writes.bind (writes.throw _) fun _ => writes.pure _) (writes.pure _))
    (writes.bind (writes.secRaise id fun old _ => by simp [Sec.lasting]) fun _ =>
      .ite (writes.bind writes.markStructural fun _ => writes.pure _) (writes.pure _))

theorem setIrreversible (writes : Writes relation) (id : UInt32) (value : String)
    (taxonomyKnown : Bool) : Preserves relation (setIrreversible id value taxonomyKnown) := by
  refine writes.bind writes.get fun model => ?_
  cases (model.sec.lookup id).bind (·.irreversible) with
  | some held => exact .ite (writes.throw _) (writes.pure _)
  | none =>
    have warn : Preserves relation
        (modify fun model => { model with warned := true } : Edit PUnit) :=
      preserves_modify writes.warned
    exact .ite (writes.pure _) <| .ite (writes.bind warn fun _ => writes.pure _) <|
      writes.bind (writes.secRaise id fun _ lasts => by simpa [Sec.lasting] using lasts) fun _ =>
        writes.bind writes.markStructural fun _ => writes.pure _

theorem setEcho (writes : Writes relation) (id : UInt32) (value : String) (now : Instant) :
    Preserves relation (setEcho id value now) := by
  intro model
  rw [leaves_ok (run_setEcho model id value now), Model.echoed]
  split
  · split
    · exact writes.refl model
    · rename_i sec found
      split
      · have held := writes.held model id sec
          { sec with echoOff := false, holdUntil := some (now + grace) } found fun lasts => lasts
        exact writes.trans held (writes.structural _)
      · exact writes.refl model
  · have raised := writes.raised model id
      (fun sec => { sec with echoOff := true, holdUntil := none }) fun old _ lasts => lasts
    dsimp only
    split
    · exact writes.trans raised (writes.structural _)
    · exact raised

theorem writeExt (writes : Writes relation) (id : UInt32) (key value : String) :
    Preserves relation (writeExt id key value) :=
  writes.bind (writes.nodeAt id) fun _ => .ite (writes.throw _) <|
    writes.bind (writes.updateNode id) fun _ => writes.bind writes.markValue fun _ => writes.pure _

theorem setExt (writes : Writes relation) (id : UInt32) (key value : String) (now : Instant)
    (taxonomyKnown : Bool) : Preserves relation (setExt id key value now taxonomyKnown) := by
  refine writes.bind (writes.nodeAt id) fun _ => ?_
  refine .ite (writes.bind (writes.throw _) fun _ => ?rest) ?rest
  exact .ite (writes.pure _) <| .ite (writes.setCredential id _) <|
    .ite (writes.setIrreversible id _ _) <|
      .ite (writes.bind (writes.setEcho id _ now) fun _ => writes.writeExt id _ _)
        (writes.writeExt id _ _)

end Writes

end EclipseOS.Abyss.Semantic

/-! ## Links of a semantic tree

The nodes of a model as a tree of parent pointers and child lists, and what each
request does to it. -/

namespace EclipseOS.Abyss.Semantic

open Foundation PolicyEval

def Node.up (node : Node) : Option UInt32 := if node.parent = 0 then none else some node.parent

def parentsOf (nodes : Nodes) : Parents UInt32 := fun id => (nodes.lookup id).map (·.up)

def childrenOf (nodes : Nodes) (id : UInt32) : List UInt32 := (nodes.lookup id).elim [] (·.children)

def rootOf (root : UInt32) : Option UInt32 := if root = 0 then none else some root

/-- The model's nodes are one tree under its root, and 0 names none of them. -/
structure Model.WellFormed (model : Model) : Prop where
  tree : Tree (parentsOf model.nodes) (childrenOf model.nodes) (rootOf model.root)
  zero : model.nodes.lookup 0 = none

section Lookups

variable {nodes : Nodes} {id : UInt32} {node : Node}

theorem parentsOf_some (found : nodes.lookup id = some node) : parentsOf nodes id = some node.up := by
  rw [parentsOf, found]
  rfl

theorem childrenOf_some (found : nodes.lookup id = some node) : childrenOf nodes id = node.children := by
  rw [childrenOf, found]
  rfl

theorem isSome_parentsOf : (parentsOf nodes id).isSome = (nodes.lookup id).isSome := by
  simp [parentsOf]

theorem parentsOf_eq_none : parentsOf nodes id = none ↔ nodes.lookup id = none := by
  simp [parentsOf]

theorem childrenOf_none (absent : nodes.lookup id = none) : childrenOf nodes id = [] := by
  rw [childrenOf, absent]
  rfl

theorem up_eq_some {parent : UInt32} : node.up = some parent ↔ node.parent = parent ∧ parent ≠ 0 := by
  unfold Node.up
  split
  · rename_i zero
    simp only [zero, reduceCtorEq, false_iff, not_and, not_not]
    exact fun same => same.symm
  · rename_i named
    simp only [Option.some.injEq]
    exact ⟨fun same => ⟨same, same ▸ named⟩, And.left⟩

theorem up_eq_none : node.up = none ↔ node.parent = 0 := by
  unfold Node.up
  split <;> simp_all

theorem up_new {parent : UInt32} (named : parent ≠ 0) : (Node.new parent).up = some parent :=
  up_eq_some.mpr ⟨rfl, named⟩

theorem parentsOf_insert (id : UInt32) (node : Node) (nodes : Nodes) :
    parentsOf (nodes.insert id node) = Function.update (parentsOf nodes) id (some node.up) := by
  funext other
  by_cases same : other = id
  · rw [same, Function.update_self, parentsOf_some (Finmap.lookup_insert _)]
  · rw [Function.update_of_ne same, parentsOf, Finmap.lookup_insert_of_ne _ same, parentsOf]

theorem parentsOf_withParent {parent : UInt32} (named : parent ≠ 0)
    (present : (nodes.lookup id).isSome) :
    parentsOf (updateAt id (fun node => { node with parent }) nodes) =
      Function.update (parentsOf nodes) id (some (some parent)) := by
  rcases Option.isSome_iff_exists.mp present with ⟨node, found⟩
  funext other
  by_cases same : other = id
  · rw [same, Function.update_self, parentsOf, lookup_updateAt, if_pos rfl, found]
    exact congrArg some (up_eq_some.mpr ⟨rfl, named⟩)
  · rw [Function.update_of_ne same, parentsOf, lookup_updateAt, if_neg same, parentsOf]

theorem parentsOf_withChildren (id : UInt32) (update : List UInt32 → List UInt32) (nodes : Nodes) :
    parentsOf (updateAt id (withChildren update) nodes) = parentsOf nodes := by
  funext other
  rw [parentsOf, lookup_updateAt, parentsOf]
  split
  · rename_i same
    rw [same]
    cases nodes.lookup id <;> rfl
  · rfl

theorem childrenOf_withChildren (update : List UInt32 → List UInt32)
    (found : nodes.lookup id = some node) (other : UInt32) :
    childrenOf (updateAt id (withChildren update) nodes) other =
      if other = id then update (childrenOf nodes other) else childrenOf nodes other := by
  rw [childrenOf, lookup_updateAt]
  by_cases same : other = id
  · rw [if_pos same, if_pos same, found, same, childrenOf_some found]
    rfl
  · rw [if_neg same, if_neg same]
    rfl

theorem mem_insertChild {index id child : UInt32} {children : List UInt32} :
    child ∈ insertChild index id children ↔ child = id ∨ child ∈ children := by
  unfold insertChild
  rw [List.mem_append, List.mem_cons, ← or_assoc, or_comm (a := child ∈ _), or_assoc,
    ← List.mem_append, List.take_append_drop]

theorem nodup_insertChild {index id : UInt32} {children : List UInt32} (absent : id ∉ children)
    (distinct : children.Nodup) : (insertChild index id children).Nodup := by
  unfold insertChild
  rw [List.nodup_middle, List.take_append_drop]
  exact List.nodup_cons.mpr ⟨absent, distinct⟩

end Lookups

/-! ## Requests that leave the links alone -/

/-- The same ids with the same parents, the same children and the same root. -/
def SameLinks (model after : Model) : Prop :=
  after.root = model.root ∧
    ∀ id, (after.nodes.lookup id).map (fun node => (node.parent, node.children)) =
      (model.nodes.lookup id).map fun node => (node.parent, node.children)

theorem SameLinks.refl (model : Model) : SameLinks model model := ⟨rfl, fun _ => rfl⟩

theorem SameLinks.trans {first middle last : Model} (left : SameLinks first middle)
    (right : SameLinks middle last) : SameLinks first last :=
  ⟨right.1.trans left.1, fun id => (right.2 id).trans (left.2 id)⟩

theorem SameLinks.of_nodes {model after : Model} (root : after.root = model.root)
    (nodes : after.nodes = model.nodes) : SameLinks model after :=
  ⟨root, fun id => by rw [nodes]⟩

theorem SameLinks.parents {model after : Model} (same : SameLinks model after) :
    parentsOf after.nodes = parentsOf model.nodes := by
  funext id
  have links := congrArg (Option.map fun link : UInt32 × List UInt32 =>
    if link.1 = 0 then none else some link.1) (same.2 id)
  simpa [parentsOf, Node.up, Function.comp_def] using links

theorem SameLinks.wellFormed {model after : Model} (same : SameLinks model after)
    (wellFormed : model.WellFormed) : after.WellFormed := by
  have children : childrenOf after.nodes = childrenOf model.nodes := by
    funext id
    have links := congrArg (fun link : Option (UInt32 × List UInt32) => link.elim [] Prod.snd)
      (same.2 id)
    simpa [childrenOf, Function.comp_def] using links
  refine ⟨by rw [same.parents, children, same.1]; exact wellFormed.tree, ?_⟩
  have links := same.2 0
  rw [wellFormed.zero] at links
  simpa using links

theorem SameLinks.writes : Writes SameLinks where
  refl := .refl
  trans := .trans
  node model id update keeps := by
    refine ⟨rfl, fun other => ?_⟩
    rw [lookup_updateAt]
    split
    · rename_i same
      rw [same]
      cases model.nodes.lookup id with
      | none => rfl
      | some node => simp [keeps node]
    · rfl
  raised model id raise _ := by
    refine .of_nodes ?_ (raised_nodes model id raise)
    unfold Model.raised
    split
    · rfl
    · split <;> rfl
  held _ _ _ _ _ _ := .of_nodes rfl rfl
  structural _ := .of_nodes rfl rfl
  value _ := .of_nodes rfl rfl
  warned _ := .of_nodes rfl rfl

end EclipseOS.Abyss.Semantic
