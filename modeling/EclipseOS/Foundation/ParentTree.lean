import Mathlib.Data.Finset.Card
import Mathlib.Data.List.Perm.Basic
import Mathlib.Logic.Function.Basic

/-! # Trees kept as parent pointers and child lists

A finite tree whose nodes name their parent and list their children, and what
hanging, moving and pruning a node and walking the whole of it do. -/

namespace EclipseOS.Foundation

variable {ι : Type}

/-- What each id names as its parent: `none` for no such node, `some none` for a
node without one. -/
abbrev Parents (ι : Type) := ι → Option (Option ι)

/-- Climbing from a node ends at one without a parent. -/
inductive Rooted (parents : Parents ι) : ι → Prop where
  | root {id} (top : parents id = some none) : Rooted parents id
  | child {id parent} (link : parents id = some (some parent)) (rest : Rooted parents parent) :
      Rooted parents id

/-- A node is itself or an ancestor of another. -/
inductive Above (parents : Parents ι) (top : ι) : ι → Prop where
  | refl : Above parents top top
  | child {id parent} (link : parents id = some (some parent)) (rest : Above parents top parent) :
      Above parents top id

theorem Above.trans {parents : Parents ι} {first middle last : ι}
    (upper : Above parents first middle) (lower : Above parents middle last) :
    Above parents first last := by
  induction lower with
  | refl => exact upper
  | child link rest induction => exact .child link induction

/-- Both kinds of link agree, child lists have no duplicates, there is one root and
every node climbs to it. -/
structure Tree (parents : Parents ι) (children : ι → List ι) (root : Option ι) : Prop where
  listed : ∀ parent id, id ∈ children parent ↔ parents id = some (some parent)
  distinct : ∀ parent, (children parent).Nodup
  rooted : ∀ id, (parents id).isSome → Rooted parents id
  sole : ∀ id, parents id = some none ↔ root = some id

namespace Rooted

variable {parents : Parents ι} {id : ι}

theorem present (rooted : Rooted parents id) : (parents id).isSome := by
  cases rooted with
  | root top => rw [top]; rfl
  | child link => rw [link]; rfl

theorem above_present {top : ι} (rooted : Rooted parents id) (above : Above parents top id) :
    (parents top).isSome := by
  induction above with
  | refl => exact rooted.present
  | child link rest induction =>
    apply induction
    cases rooted with
    | root top => rw [link] at top; cases top
    | child link' rest' =>
      rw [link] at link'
      cases link'
      exact rest'

theorem not_above_parent (rooted : Rooted parents id) {parent : ι}
    (link : parents id = some (some parent)) : ¬Above parents id parent := by
  induction rooted generalizing parent with
  | root top =>
    rw [top] at link
    cases link
  | @child id up hung rest induction =>
    rw [hung] at link
    cases link
    intro above
    cases above with
    | refl => exact induction hung .refl
    | child hung' rest' => exact induction hung' ((Above.child hung .refl).trans rest')

theorem of_not_above {other : Parents ι} {cut : ι} (rooted : Rooted parents id)
    (apart : ¬Above parents cut id)
    (same : ∀ other', ¬Above parents cut other' → other other' = parents other') :
    Rooted other id := by
  induction rooted with
  | root top => exact .root ((same _ apart).trans top)
  | child link rest induction =>
    have parentApart := fun above => apart (.child link above)
    exact .child ((same _ apart).trans link) (induction parentApart)

end Rooted

namespace Tree

variable {parents : Parents ι} {children : ι → List ι} {root : Option ι}

theorem parent_present (tree : Tree parents children root) {id parent : ι}
    (link : parents id = some (some parent)) : (parents parent).isSome := by
  cases tree.rooted id (by rw [link]; rfl) with
  | root top => rw [link] at top; cases top
  | child link' rest =>
    rw [link] at link'
    cases link'
    exact rest.present

theorem absent_of_rootless (tree : Tree parents children none) (id : ι) : parents id = none := by
  cases named : parents id with
  | none => rfl
  | some parent =>
    have rooted := tree.rooted id (by rw [named]; rfl)
    clear named
    induction rooted with
    | root top => cases (tree.sole _).mp top
    | child link rest induction => exact induction

theorem single [DecidableEq ι] (tree : Tree parents children none) (id : ι) :
    Tree (Function.update parents id (some none)) (fun _ => []) (some id) where
  listed parent child := by
    by_cases same : child = id
    · simp [same]
    · simp [Function.update_of_ne same, tree.absent_of_rootless]
  distinct _ := .nil
  rooted child present := by
    by_cases same : child = id
    · exact .root (by simp [same])
    · simp [Function.update_of_ne same, tree.absent_of_rootless] at present
  sole child := by
    by_cases same : child = id
    · simp [same]
    · simp [Function.update_of_ne same, tree.absent_of_rootless, Ne.symm same]

theorem relink [DecidableEq ι] (tree : Tree parents children root) {id parent : ι}
    {children' : ι → List ι} (present : (parents parent).isSome) (notRoot : root ≠ some id)
    (apart : ¬Above parents id parent)
    (members : ∀ other child, child ∈ children' other ↔
      if child = id then other = parent else child ∈ children other)
    (distinct : ∀ other, (children' other).Nodup) :
    Tree (Function.update parents id (some (some parent))) children' root := by
  have unchanged : ∀ other, ¬Above parents id other →
      Function.update parents id (some (some parent)) other = parents other := by
    intro other below
    have different : other ≠ id := by
      rintro rfl
      exact below .refl
    exact Function.update_of_ne different _ _
  have hung : Rooted (Function.update parents id (some (some parent))) id :=
    .child (Function.update_self ..) ((tree.rooted parent present).of_not_above apart unchanged)
  refine ⟨fun other child => ?_, distinct, fun other present => ?_, fun other => ?_⟩
  · rw [members]
    by_cases same : child = id
    · rw [if_pos same, same, Function.update_self, Option.some.injEq, Option.some.injEq, eq_comm]
    · rw [if_neg same, Function.update_of_ne same, tree.listed]
  · by_cases same : other = id
    · exact same ▸ hung
    · rw [Function.update_of_ne same] at present
      have rooted := tree.rooted other present
      clear present same
      -- every old climb still climbs, through the new link where it met `id`
      induction rooted with
      | @root other top =>
        by_cases same : other = id
        · exact same ▸ hung
        · exact .root ((Function.update_of_ne same _ _).trans top)
      | @child other up link rest induction =>
        by_cases same : other = id
        · exact same ▸ hung
        · exact .child ((Function.update_of_ne same _ _).trans link) induction
  · by_cases same : other = id
    · rw [same, Function.update_self]
      simp [notRoot]
    · rw [Function.update_of_ne same, tree.sole]

theorem prune (tree : Tree parents children root) {id : ι} {parents' : Parents ι}
    {children' : ι → List ι} {root' : Option ι}
    (gone : ∀ other, Above parents id other → parents' other = none)
    (kept : ∀ other, ¬Above parents id other → parents' other = parents other)
    (members : ∀ other child, child ∈ children' other ↔
      child ∈ children other ∧ ¬Above parents id child)
    (distinct : ∀ other, (children' other).Nodup)
    (roots : ∀ other, root' = some other ↔ root = some other ∧ ¬Above parents id other) :
    Tree parents' children' root' := by
  refine ⟨fun parent child => ?_, distinct, fun other present => ?_, fun other => ?_⟩
  · rw [members, tree.listed]
    by_cases below : Above parents id child
    · simp [gone child below, below]
    · simp [kept child below, below]
  · by_cases below : Above parents id other
    · rw [gone other below] at present
      cases present
    · rw [kept other below] at present
      exact (tree.rooted other present).of_not_above below kept
  · rw [roots, ← tree.sole]
    by_cases below : Above parents id other
    · simp [gone other below, below]
    · simp [kept other below, below]

theorem above_root (tree : Tree parents children root) {top id : ι} (named : root = some top)
    (present : (parents id).isSome) : Above parents top id := by
  have rooted := tree.rooted id present
  clear present
  induction rooted with
  | root at_root =>
    have same : some top = some _ := named.symm.trans ((tree.sole _).mp at_root)
    cases same
    exact .refl
  | child link rest induction => exact .child link induction

/-! ### What is below a node -/

open Classical in
/-- The links below a node, cut off above it. -/
noncomputable def linksUnder (parents : Parents ι) (top : ι) : Parents ι := fun id =>
  if id = top then some none else if Above parents top id then parents id else none

open Classical in
noncomputable def childrenUnder (parents : Parents ι) (children : ι → List ι) (top : ι) (id : ι) :
    List ι :=
  if Above parents top id then children id else []

theorem linksUnder_isSome {top id : ι} :
    (linksUnder parents top id).isSome ↔ Above parents top id := by
  unfold linksUnder
  split
  · rename_i same
    exact iff_of_true rfl (same ▸ .refl)
  · rename_i different
    split
    · rename_i above
      refine iff_of_true ?_ above
      cases above with
      | refl => exact absurd rfl different
      | child link => rw [link]; rfl
    · rename_i apart
      exact iff_of_false nofun apart

theorem linksUnder_eq_some {top id parent : ι} :
    linksUnder parents top id = some (some parent) ↔
      id ≠ top ∧ Above parents top id ∧ parents id = some (some parent) := by
  unfold linksUnder
  split
  · rename_i same
    simp [same]
  · split <;> simp_all

theorem under (tree : Tree parents children root) {top : ι} (present : (parents top).isSome) :
    Tree (linksUnder parents top) (childrenUnder parents children top) (some top) := by
  refine ⟨fun parent id => ?_, fun parent => ?_, fun id among => ?_, fun id => ?_⟩
  · rw [linksUnder_eq_some, childrenUnder]
    split
    · rename_i above
      rw [tree.listed]
      constructor
      · intro link
        refine ⟨?_, .child link above, link⟩
        rintro rfl
        exact (tree.rooted id present).not_above_parent link above
      · exact fun below => below.2.2
    · rename_i apart
      refine iff_of_false (List.not_mem_nil) fun ⟨different, above, link⟩ => apart ?_
      cases above with
      | refl => exact absurd rfl different
      | child link' rest =>
        rw [link] at link'
        cases link'
        exact rest
  · unfold childrenUnder
    split
    · exact tree.distinct parent
    · exact .nil
  · have above := linksUnder_isSome.mp among
    clear among
    have top' : linksUnder parents top top = some none := if_pos rfl
    induction above with
    | refl => exact .root top'
    | @child id parent link rest induction =>
      by_cases same : id = top
      · rw [same]
        exact .root top'
      · exact .child (linksUnder_eq_some.mpr ⟨same, .child link rest, link⟩) induction
  · constructor
    · intro orphan
      by_cases same : id = top
      · rw [same]
      · have above : Above parents top id := linksUnder_isSome.mp (by rw [orphan]; rfl)
        cases above with
        | refl => exact absurd rfl same
        | child link rest =>
          rw [linksUnder_eq_some.mpr ⟨same, .child link rest, link⟩] at orphan
          cases orphan
    · rintro ⟨rfl⟩
      exact if_pos rfl

end Tree

/-! ## Distances -/

/-- Climbing a number of links from a node reaches another. -/
inductive Climbs (parents : Parents ι) (top : ι) : ι → Nat → Prop where
  | refl : Climbs parents top top 0
  | child {id parent links} (link : parents id = some (some parent))
      (rest : Climbs parents top parent links) : Climbs parents top id (links + 1)

theorem above_iff_climbs {parents : Parents ι} {top id : ι} :
    Above parents top id ↔ ∃ links, Climbs parents top id links := by
  constructor
  · intro above
    induction above with
    | refl => exact ⟨0, .refl⟩
    | child link rest induction =>
      rcases induction with ⟨links, climbs⟩
      exact ⟨links + 1, .child link climbs⟩
  · rintro ⟨links, climbs⟩
    induction climbs with
    | refl => exact .refl
    | child link rest induction => exact .child link induction

namespace Climbs

variable {parents other : Parents ι} {top middle id cut : ι} {links more : Nat}

theorem above (climbs : Climbs parents top id links) : Above parents top id :=
  above_iff_climbs.mpr ⟨links, climbs⟩

theorem trans (upper : Climbs parents top middle links) (lower : Climbs parents middle id more) :
    Climbs parents top id (links + more) := by
  induction lower with
  | refl => exact upper
  | child link rest induction => exact .child link induction

theorem unique (orphan : parents top = some none) (first : Climbs parents top id links)
    (second : Climbs parents top id more) : links = more := by
  induction first generalizing more with
  | refl =>
    cases second with
    | refl => rfl
    | child link =>
      rw [orphan] at link
      cases link
  | child link rest induction =>
    cases second with
    | refl =>
      rw [orphan] at link
      cases link
    | child link' rest' =>
      rw [link] at link'
      cases link'
      rw [induction rest']

theorem present (climbs : Climbs parents top id (links + 1)) : (parents id).isSome := by
  cases climbs with
  | child link =>
    rw [link]
    rfl

theorem rooted (orphan : parents top = some none) (climbs : Climbs parents top id links) :
    Rooted parents id := by
  induction climbs with
  | refl => exact .root orphan
  | child link rest induction => exact .child link induction

theorem card_line [DecidableEq ι] (orphan : parents top = some none)
    (climbs : Climbs parents top id links) {line : Finset ι}
    (all : ∀ other, other ∈ line ↔ Above parents other id) : line.card = links + 1 := by
  induction climbs generalizing line with
  | refl =>
    have sole : line = {top} := by
      ext other
      rw [all, Finset.mem_singleton]
      constructor
      · intro above
        cases above with
        | refl => rfl
        | child link =>
          rw [orphan] at link
          cases link
      · rintro rfl
        exact .refl
    rw [sole, Finset.card_singleton]
  | @child id parent links link rest induction =>
    have member : id ∈ line := (all id).mpr .refl
    have lineUp (other : ι) : other ∈ line.erase id ↔ Above parents other parent := by
      rw [Finset.mem_erase, all]
      constructor
      · intro ⟨different, above⟩
        cases above with
        | refl => exact absurd rfl different
        | child link' rest' =>
          rw [link] at link'
          cases link'
          exact rest'
      · intro above
        refine ⟨?_, .child link above⟩
        rintro rfl
        exact ((rest.rooted orphan).child link).not_above_parent link above
    rw [← Finset.card_erase_add_one member, induction lineUp]

theorem same_top (first : Climbs parents top id links) (second : Climbs parents middle id links) :
    top = middle := by
  induction first with
  | refl =>
    cases second
    rfl
  | child link rest induction =>
    cases second with
    | child link' rest' =>
      rw [link] at link'
      cases link'
      exact induction rest'

theorem mono (same : ∀ id parent, parents id = some (some parent) →
    other id = some (some parent)) (climbs : Climbs parents top id links) :
    Climbs other top id links := by
  induction climbs with
  | refl => exact .refl
  | child link rest induction => exact .child (same _ _ link) induction

variable [DecidableEq ι] {up : Option (Option ι)}

theorem update (apart : ¬Above parents cut id) (climbs : Climbs parents top id links) :
    Climbs (Function.update parents cut up) top id links := by
  induction climbs with
  | refl => exact .refl
  | @child id parent links link rest induction =>
    have different : id ≠ cut := by
      rintro rfl
      exact apart .refl
    have parentApart := fun above => apart (.child link above)
    exact .child ((Function.update_of_ne different ..).trans link) (induction parentApart)

theorem update_top (rooted : Rooted parents id) (climbs : Climbs parents cut id links) :
    Climbs (Function.update parents cut up) cut id links := by
  induction climbs with
  | refl => exact .refl
  | @child id parent links link rest induction =>
    have different : id ≠ cut := by
      rintro rfl
      exact rooted.not_above_parent link rest.above
    have parentRooted : Rooted parents parent := by
      cases rooted with
      | root top =>
        rw [link] at top
        cases top
      | child link' rest' =>
        rw [link] at link'
        cases link'
        exact rest'
    exact .child ((Function.update_of_ne different ..).trans link) (induction parentRooted)

end Climbs

/-! ## Walking a tree -/

/-- A walk has seen some nodes and has a stack of others: between them they hold the
root and every child of what was seen, each at most once. -/
structure Frontier (parents : Parents ι) (children : ι → List ι) (root : Option ι)
    (seen : Finset ι) (stack : List ι) : Prop where
  distinct : stack.Nodup
  fresh : ∀ id ∈ stack, id ∉ seen
  present : ∀ id, id ∈ seen ∨ id ∈ stack → (parents id).isSome
  closed : ∀ id ∈ seen, ∀ child ∈ children id, child ∈ seen ∨ child ∈ stack
  parent : ∀ id, id ∈ seen ∨ id ∈ stack → ∀ up, parents id = some (some up) → up ∈ seen
  top : ∀ id, root = some id → id ∈ seen ∨ id ∈ stack

namespace Frontier

variable {parents : Parents ι} {children : ι → List ι} {root : Option ι} {seen : Finset ι}
  {stack : List ι}

theorem start (tree : Tree parents children root) {id : ι} (named : root = some id) :
    Frontier parents children root ∅ [id] where
  distinct := List.nodup_singleton id
  fresh _ _ := Finset.notMem_empty _
  present other among := by
    rcases among with none | same
    · cases Finset.notMem_empty _ none
    · rw [List.mem_singleton.mp same, (tree.sole id).mpr named]
      rfl
  closed _ none := absurd none (Finset.notMem_empty _)
  parent other among up link := by
    rcases among with none | same
    · cases Finset.notMem_empty _ none
    · rw [List.mem_singleton.mp same, (tree.sole id).mpr named] at link
      cases link
  top other named' := by
    rw [named] at named'
    cases named'
    exact .inr (List.mem_singleton_self id)

theorem visit [DecidableEq ι] {id : ι} {pushed : List ι} (tree : Tree parents children root)
    (frontier : Frontier parents children root seen (id :: stack))
    (perm : pushed.Perm (children id)) :
    Frontier parents children root (insert id seen) (pushed ++ stack) := by
  have unseen : id ∉ seen := frontier.fresh id List.mem_cons_self
  have childOf : ∀ child ∈ pushed, parents child = some (some id) :=
    fun child member => (tree.listed id child).mp (perm.mem_iff.mp member)
  have lies : ∀ {other}, other ∈ insert id seen ∨ other ∈ pushed ++ stack →
      (other ∈ seen ∨ other ∈ id :: stack) ∨ other ∈ pushed := by
    intro other among
    rcases among with seen | stacked
    · rcases Finset.mem_insert.mp seen with rfl | seen
      · exact .inl (.inr List.mem_cons_self)
      · exact .inl (.inl seen)
    · rcases List.mem_append.mp stacked with pushed | stacked
      · exact .inr pushed
      · exact .inl (.inr (List.mem_cons_of_mem _ stacked))
  -- a child of `id` was not seen or stacked before, as its parent was not seen
  have new : ∀ child ∈ pushed, ¬(child ∈ seen ∨ child ∈ id :: stack) :=
    fun child member among => unseen (frontier.parent child among id (childOf child member))
  refine ⟨?_, ?_, ?_, ?_, ?_, ?_⟩
  · refine List.nodup_append.mpr ⟨perm.nodup_iff.mpr (tree.distinct id),
      (List.nodup_cons.mp frontier.distinct).2, ?_⟩
    rintro child member _ stacked rfl
    exact new child member (.inr (List.mem_cons_of_mem _ stacked))
  · intro other stacked
    rw [Finset.mem_insert, not_or]
    rcases List.mem_append.mp stacked with member | stacked
    · have apart := not_or.mp (new other member)
      exact ⟨fun same => apart.2 (same ▸ List.mem_cons_self), apart.1⟩
    · refine ⟨?_, frontier.fresh other (List.mem_cons_of_mem _ stacked)⟩
      rintro rfl
      exact (List.nodup_cons.mp frontier.distinct).1 stacked
  · intro other among
    rcases lies among with before | member
    · exact frontier.present other before
    · rw [childOf other member]
      rfl
  · intro other member child below
    rcases Finset.mem_insert.mp member with rfl | member
    · exact .inr (List.mem_append_left _ (perm.mem_iff.mpr below))
    · rcases frontier.closed other member child below with seen | stacked
      · exact .inl (Finset.mem_insert_of_mem seen)
      · rcases List.mem_cons.mp stacked with rfl | stacked
        · exact .inl (Finset.mem_insert_self _ _)
        · exact .inr (List.mem_append_right _ stacked)
  · intro other among up link
    rcases lies among with before | member
    · exact Finset.mem_insert_of_mem (frontier.parent other before up link)
    · rw [childOf other member] at link
      cases link
      exact Finset.mem_insert_self _ _
  · intro other named
    rcases frontier.top other named with seen | stacked
    · exact .inl (Finset.mem_insert_of_mem seen)
    · rcases List.mem_cons.mp stacked with rfl | stacked
      · exact .inl (Finset.mem_insert_self _ _)
      · exact .inr (List.mem_append_right _ stacked)

theorem root_mem (tree : Tree parents children root)
    (frontier : Frontier parents children root seen stack) {top id : ι} (named : root = some top)
    (member : id ∈ seen) : top ∈ seen := by
  have above := tree.above_root named (frontier.present id (.inl member))
  induction above with
  | refl => exact member
  | child link rest induction => exact induction (frontier.parent _ (.inl member) _ link)

theorem finished (tree : Tree parents children root)
    (frontier : Frontier parents children root seen []) (id : ι) :
    id ∈ seen ↔ (parents id).isSome := by
  constructor
  · exact fun member => frontier.present id (.inl member)
  · intro present
    have rooted := tree.rooted id present
    clear present
    induction rooted with
    | root top => simpa using frontier.top _ ((tree.sole _).mp top)
    | child link rest induction =>
      simpa using frontier.closed _ induction _ ((tree.listed _ _).mpr link)

end Frontier

end EclipseOS.Foundation
