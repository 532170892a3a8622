import EclipseOS.Abyss.Semantic.Snapshot

/-! # Where the secrets of a view lie

What the capture path is told of a committed view: the rectangles of its secret nodes,
or that some secret has no place and the surface is to be covered whole. -/

namespace EclipseOS.Abyss.Semantic

open Foundation PolicyEval

/-- Secret rectangles reported; more than this is "unplaced". -/
def secretRectsMax : Nat := 256

def Rect.isEmpty (rect : Rect) : Bool := rect.w ≤ 0 || rect.h ≤ 0

structure SecretFacts where
  /-- A secret node is, or very recently was, in the tree. -/
  known : Bool
  /-- Some secret cannot be placed: the surface is covered whole. -/
  unplaced : Bool
  rects : List Rect
  deriving DecidableEq

def View.place (view : View) (facts : SecretFacts) (entry : UInt32 × Class) : Option SecretFacts :=
  if entry.2 ≠ .secret then
    some facts
  else do
    let node ← view.nodes.lookup entry.1
    match node.rect with
    | some rect =>
      if rect.isEmpty then return { facts with known := true, unplaced := true }
      else return { facts with known := true, rects := facts.rects ++ [rect] }
    | none => return { facts with known := true, unplaced := true }

def View.secretFacts (view : View) (now : Instant) : Option SecretFacts := do
  let whole := view.tainted || view.secretDropped || view.ghostUntil.any (now < ·)
  let order ← view.tree.effective now
  let facts ← order.foldlM view.place ⟨whole, whole, []⟩
  let unplaced := facts.unplaced || secretRectsMax < facts.rects.length
  return { facts with unplaced, rects := if unplaced then [] else facts.rects }

/-! ## Rectangles -/

def Rect.Has (rect : Rect) (x y : Int) : Prop :=
  (rect.x.toInt ≤ x ∧ x < rect.x.toInt + rect.w.toInt) ∧
    rect.y.toInt ≤ y ∧ y < rect.y.toInt + rect.h.toInt

def OnSurface (size : Int32 × Int32) (x y : Int) : Prop :=
  (0 ≤ x ∧ x < size.1.toInt) ∧ 0 ≤ y ∧ y < size.2.toInt

theorem clamped_side (bound start length : Int32) {point : Int}
    (inside : 0 ≤ point ∧ point < bound.toInt)
    (has : start.toInt ≤ point ∧ point < start.toInt + length.toInt) :
    let low := Rect.clamp 0 (max bound.toInt 0) start.toInt
    let high := Rect.clamp low (max bound.toInt 0) (start.toInt + max length.toInt 0)
    (Int32.ofInt low).toInt ≤ point ∧
      point < (Int32.ofInt low).toInt + (Int32.ofInt (high - low)).toInt := by
  have bounds := bound.toInt_lt
  have lowRange : 0 ≤ Rect.clamp 0 (max bound.toInt 0) start.toInt ∧
      Rect.clamp 0 (max bound.toInt 0) start.toInt ≤ max bound.toInt 0 := by
    unfold Rect.clamp
    omega
  intro low high
  have highRange : low ≤ high ∧ high ≤ max bound.toInt 0 := by
    unfold high Rect.clamp
    omega
  rw [Int32.toInt_ofInt_of_le (by omega) (by omega), Int32.toInt_ofInt_of_le (by omega) (by omega)]
  unfold high low Rect.clamp at *
  omega

theorem clamped_has {rect : Rect} {size : Int32 × Int32} {x y : Int} (inside : OnSurface size x y)
    (has : rect.Has x y) : (rect.clamped size).1.Has x y :=
  ⟨clamped_side size.1 rect.x rect.w inside.1 has.1,
    clamped_side size.2 rect.y rect.h inside.2 has.2⟩

/-! ## Facts -/

/-- Where a secret node of a view lies, if it has a place. -/
def View.spot (view : View) (entry : UInt32 × Class) : Option Rect :=
  if entry.2 = .secret then ((view.nodes.lookup entry.1).bind (·.rect)).filter (!·.isEmpty)
  else none

theorem foldlM_place (view : View) {order : List (UInt32 × Class)}
    (present : ∀ entry ∈ order, (view.nodes.lookup entry.1).isSome) (start : SecretFacts) :
    order.foldlM view.place start = some
      ⟨start.known || order.any (·.2 = .secret),
        start.unplaced || order.any fun entry => entry.2 = .secret ∧ view.spot entry = none,
        start.rects ++ order.filterMap view.spot⟩ := by
  induction order generalizing start with
  | nil => simp
  | cons entry order induction =>
    have rest := induction fun other member => present other (List.mem_cons_of_mem _ member)
    rcases Option.isSome_iff_exists.mp (present entry List.mem_cons_self) with ⟨node, found⟩
    rw [List.foldlM_cons]
    by_cases secret : entry.2 = .secret
    · cases placed : node.rect with
      | none =>
        have nowhere : view.spot entry = none := by simp [View.spot, found, placed]
        have step : view.place start entry =
            some { start with known := true, unplaced := true } := by
          simp [View.place, secret, found, placed]
        rw [step, Option.bind_eq_bind, Option.bind_some, rest]
        simp [secret, nowhere]
      | some rect =>
        by_cases empty : rect.isEmpty
        · have nowhere : view.spot entry = none := by
            simp [View.spot, found, placed, empty]
          have step : view.place start entry =
              some { start with known := true, unplaced := true } := by
            simp [View.place, secret, found, placed, empty]
          rw [step, Option.bind_eq_bind, Option.bind_some, rest]
          simp [secret, nowhere]
        · have here : view.spot entry = some rect := by
            simp [View.spot, secret, found, placed, empty]
          have step : view.place start entry =
              some { start with known := true, rects := start.rects ++ [rect] } := by
            simp [View.place, secret, found, placed, empty]
          rw [step, Option.bind_eq_bind, Option.bind_some, rest]
          simp [secret, here]
    · have nowhere : view.spot entry = none := by simp [View.spot, secret]
      have step : view.place start entry = some start := by simp [View.place, secret]
      rw [step, Option.bind_eq_bind, Option.bind_some, rest]
      simp [secret, nowhere]

/-- Whether a view's surface is covered whole whatever its nodes are. -/
def View.whole (view : View) (now : Instant) : Bool :=
  view.tainted || view.secretDropped || view.ghostUntil.any (now < ·)

/-- Whether some secret of the order has no place. -/
def View.unplaced (view : View) (now : Instant) (order : List (UInt32 × Class)) : Bool :=
  (view.whole now || order.any fun entry => entry.2 = .secret ∧ view.spot entry = none) ||
    secretRectsMax < (order.filterMap view.spot).length

theorem secretFacts_eq {view : View} {now : Instant} {order : List (UInt32 × Class)}
    (ordered : view.tree.effective now = some order)
    (present : ∀ entry ∈ order, (view.nodes.lookup entry.1).isSome) :
    view.secretFacts now = some ⟨view.whole now || order.any (·.2 = .secret),
      view.unplaced now order,
      if view.unplaced now order then [] else order.filterMap view.spot⟩ := by
  rw [View.secretFacts, ordered]
  simp only [Option.bind_eq_bind, Option.bind_some, foldlM_place view present]
  rfl

/-! ## Secret by itself or from above -/

variable {model after : Model} {now later : Instant} {id : UInt32}

/-- Whether a node's own record makes it secret. -/
def Model.owns (model : Model) (now : Instant) (id : UInt32) : Bool :=
  (model.sec.lookup id).any (·.secretAt now)

theorem owns_earlier (model : Model) (since : now ≤ later) (owns : model.owns later id) :
    model.owns now id := by
  rcases (Option.any_eq_true _ _).mp owns with ⟨sec, found, secret⟩
  refine (Option.any_eq_true _ _).mpr ⟨sec, found, ?_⟩
  simp only [Sec.secretAt, Bool.or_eq_true] at secret ⊢
  refine secret.imp_right fun held => ?_
  rcases (Option.any_eq_true _ _).mp held with ⟨deadline, holds, ahead⟩
  exact (Option.any_eq_true _ _).mpr
    ⟨deadline, holds, decide_eq_true (Nat.lt_of_le_of_lt since (of_decide_eq_true ahead))⟩

theorem local_eq_secret {sec : Sec} : sec.local now = .secret ↔ sec.secretAt now := by
  unfold Sec.local
  split
  · rename_i secret
    exact iff_of_true rfl secret
  · rename_i plain
    refine iff_of_false (fun level => plain ?_) plain
    simp [Sec.secretAt, level]

theorem classIn_eq_secret {inherited : Class} : model.classIn now id inherited = .secret ↔
    model.tainted ∨ inherited = .secret ∨ model.owns now id := by
  unfold Model.classIn Model.owns
  split
  · rename_i tainted
    exact iff_of_true rfl (.inl tainted)
  · rename_i clean
    rw [or_iff_right clean]
    cases model.sec.lookup id with
    | none =>
      rw [Option.elim_none, Option.any_none]
      cases inherited <;> decide
    | some sec =>
      rw [Option.elim_some, Option.any_some, ← local_eq_secret]
      cases inherited <;> cases sec.local now <;> decide

/-- A node reads as secret where the surface does, or its own record or that of a node
above it. -/
theorem hides_iff (wellFormed : model.WellFormed) :
    model.hides now id ↔ model.contains id ∧ (model.tainted ∨
      ∃ up, Above (parentsOf model.nodes) up id ∧ model.owns now up) := by
  rcases wellFormed.effective_some now with ⟨order, ordered, _, distinct, all⟩
  have member_iff := mem_order_iff wellFormed ordered
  rw [hides_eq ordered, decide_eq_true_eq, classAt_eq_some distinct]
  constructor
  · intro member
    refine ⟨(member_iff id).mp (List.mem_map_of_mem member), ?_⟩
    have from_above := effectiveFrom_induct (motive := fun stack order =>
      (∀ entry ∈ stack, entry.2 = .secret → model.tainted ∨
        ∃ up, Above (parentsOf model.nodes) up entry.1 ∧ model.owns now up) →
      ∀ entry ∈ order, entry.2 = .secret → model.tainted ∨
        ∃ up, Above (parentsOf model.nodes) up entry.1 ∧ model.owns now up) nofun ?_ ?_ ordered
    · refine from_above (fun entry only secret => ?_) _ member rfl
      rw [List.mem_singleton.mp only] at secret
      cases secret
    · exact fun _ _ _ _ _ induction stacked =>
        induction fun entry member => stacked entry (List.mem_cons_of_mem _ member)
    · intro other inherited stack order node found induction stacked entry counted secret
      have here (level : model.classIn now other inherited = .secret) : model.tainted ∨
          ∃ up, Above (parentsOf model.nodes) up other ∧ model.owns now up := by
        rcases classIn_eq_secret.mp level with tainted | inherits | own
        · exact .inl tainted
        · exact stacked _ List.mem_cons_self inherits
        · exact .inr ⟨other, .refl, own⟩
      rcases List.mem_cons.mp counted with rfl | counted
      · exact here secret
      · refine induction (fun entry pushed level => ?_) entry counted secret
        rcases List.mem_append.mp pushed with child | below
        · rcases List.mem_map.mp child with ⟨id, listed, rfl⟩
          have link := (wellFormed.tree.listed other id).mp (by rwa [childrenOf_some found])
          exact (here level).imp_right fun ⟨up, above, own⟩ => ⟨up, .child link above, own⟩
        · exact stacked entry (List.mem_cons_of_mem _ below) level
  · intro ⟨present, secret⟩
    rcases List.mem_map.mp ((member_iff id).mpr present) with ⟨⟨_, level⟩, member, rfl⟩
    by_cases shows : level = .secret
    · exact shows ▸ member
    · -- what is above a node that is shown is shown, so no record there is secret
      have shown' : shown order _ := (Option.any_eq_true _ _).mpr
        ⟨level, (classAt_eq_some distinct).mpr member, decide_eq_true shows⟩
      rcases secret with tainted | ⟨up, above, own⟩
      · rw [untainted_of_shown ordered shown'] at tainted
        cases tainted
      · rcases of_shown (shown_above wellFormed ordered above shown') with ⟨higher, counted, plain⟩
        exact absurd (secret_of_own ordered counted
          fun inherited => classIn_eq_secret.mpr (.inr (.inr own))) plain

theorem hides_earlier (wellFormed : model.WellFormed) (since : now ≤ later)
    (hides : model.hides later id) : model.hides now id := by
  rw [hides_iff wellFormed] at hides ⊢
  refine ⟨hides.1, hides.2.imp_right fun ⟨up, above, own⟩ => ?_⟩
  exact ⟨up, above, owns_earlier model since own⟩

/-! ## The grace of a removal -/

theorem removeAll_absent (sec : Secs) (now : Instant) (left : Nodes) (hadSecret : Bool)
    (stack : List UInt32) (absent : left.lookup id = none) :
    (removeAll sec now left hadSecret stack).1.lookup id = none := by
  induction left, hadSecret, stack using removeAll.induct sec now with
  | case1 left hadSecret =>
    rw [removeAll]
    exact absent
  | case2 left hadSecret other stack node found induction =>
    rw [removeAll]
    split
    · rename_i node' found'
      rw [found] at found'
      cases found'
      apply induction
      by_cases same : id = other
      · rw [same, Finmap.lookup_erase]
      · rwa [Finmap.lookup_erase_ne same]
    · rename_i gone
      rw [found] at gone
      cases gone
  | case3 left hadSecret other stack gone induction =>
    rw [removeAll]
    split
    · rename_i node found
      rw [gone] at found
      cases found
    · exact induction absent

theorem removeAll_secret (sec : Secs) (now : Instant) (left : Nodes) (hadSecret : Bool)
    (stack : List UInt32) :
    (removeAll sec now left hadSecret stack).2 ↔ hadSecret ∨ ∃ id, (left.lookup id).isSome ∧
      (removeAll sec now left hadSecret stack).1.lookup id = none ∧
        (sec.lookup id).any (·.secretAt now) := by
  induction left, hadSecret, stack using removeAll.induct sec now with
  | case1 left hadSecret =>
    rw [removeAll]
    refine ⟨.inl, fun secret => secret.resolve_right fun removed => ?_⟩
    rcases removed with ⟨id, there, gone, _⟩
    rw [gone] at there
    cases there
  | case2 left hadSecret other stack node found induction =>
    rw [removeAll]
    split
    · rename_i node' found'
      rw [found] at found'
      cases found'
      rw [induction, Bool.or_eq_true, or_assoc]
      apply or_congr_right
      constructor
      · intro secret
        rcases secret with own | ⟨id, there, gone, own⟩
        · refine ⟨other, by rw [found]; rfl, removeAll_absent sec now _ _ _ ?_, own⟩
          rw [Finmap.lookup_erase]
        · refine ⟨id, ?_, gone, own⟩
          by_cases same : id = other
          · rw [same, found]
            rfl
          · rwa [Finmap.lookup_erase_ne same] at there
      · rintro ⟨id, there, gone, own⟩
        by_cases same : id = other
        · exact .inl (same ▸ own)
        · exact .inr ⟨id, by rwa [Finmap.lookup_erase_ne same], gone, own⟩
    · rename_i gone
      rw [found] at gone
      cases gone
  | case3 left hadSecret other stack gone induction =>
    rw [removeAll]
    split
    · rename_i node found
      rw [gone] at found
      cases found
    · exact induction

/-- Whether some node of a subtree has a secret record. -/
def Model.familyOwns (model : Model) (now : Instant) (id : UInt32) : Prop :=
  ∃ other, model.contains other ∧ Above (parentsOf model.nodes) id other ∧ model.owns now other

open Classical in
theorem removeNode_ghost (wellFormed : model.WellFormed) (present : model.contains id)
    (now : Instant) : (leaves (removeNode id now) model).ghostUntil =
      if model.tainted ∨ model.familyOwns now id then some (now + grace) else model.ghostUntil := by
  rcases Option.isSome_iff_exists.mp present with ⟨node, found⟩
  have pruning := (Pruning.start model.nodes id).removeAll wellFormed.tree model.sec now false
  have reported := removeAll_secret model.sec now model.nodes false [id]
  have left := pruning.finished wellFormed.tree
  rw [removeNode, leaves_bind_ok (run_nodeAt_some found), leaves_get_bind, leaves_set]
  generalize removeAll model.sec now model.nodes false [id] = result at reported left ⊢
  have family : result.2 ↔ model.familyOwns now id := by
    rw [reported, or_iff_right Bool.false_ne_true]
    refine exists_congr fun other => and_congr_right fun there => and_congr_left fun _ => ?_
    refine ⟨fun gone => ?_, (left other).1⟩
    by_contra apart
    rw [(left other).2 apart] at gone
    rw [gone] at there
    cases there
  have starts : (result.2 || model.tainted) = true ↔
      model.tainted ∨ model.familyOwns now id := by
    rw [Bool.or_eq_true, family, or_comm]
  by_cases top : node.parent = 0
  · simp only [top, if_true, starts]
  · simp only [top, if_false, starts]

/-! ### The grace over runs -/

/-- The model holds the surface known secret at least until an instant. -/
def Model.Graces (model : Model) (deadline : Instant) : Prop :=
  model.tainted ∨ ∃ held, model.ghostUntil = some held ∧ deadline ≤ held

theorem writes_ghost : Writes fun model after => after.ghostUntil = model.ghostUntil where
  refl _ := rfl
  trans first second := second.trans first
  node _ _ _ _ := rfl
  raised model id raise _ := by
    unfold Model.raised
    split
    · rfl
    · split <;> rfl
  held _ _ _ _ _ _ := rfl
  structural _ := rfl
  value _ := rfl
  warned _ := rfl

theorem ghost_after (wellFormed : model.WellFormed) {call : Call}
    (called : call.after model = some after) : after.ghostUntil = model.ghostUntil ∨
      ∃ id now, call = .removeNode id now ∧ after.ghostUntil = some (now + grace) := by
  cases request : call.edit with
  | none =>
    cases call <;> cases request
    exact .inl (commit_leaves called).2.2
  | some edit =>
    rw [Model.WellFormed.after_edit request] at called
    cases called
    cases plain : call.relinks with
    | false => exact .inl (Model.WellFormed.writes_edit writes_ghost plain request)
    | true =>
      cases call <;> cases plain <;> cases request
      all_goals rw [Model.WellFormed.leaves_done]
      · left
        simp only [setRoot, leaves_get_bind, leaves_ite, leaves_throw, leaves_pure, leaves_set]
        split_ifs <;> rfl
      · left
        simp only [addNode, leaves_get_bind, leaves_ite, leaves_throw, leaves_set]
        split_ifs <;> rfl
      · rename_i id now
        by_cases present : model.contains id
        · rw [removeNode_ghost wellFormed present]
          split
          · exact .inr ⟨id, now, rfl, rfl⟩
          · exact .inl rfl
        · have absent : model.nodes.lookup id = none := by simpa [Model.contains] using present
          rw [removeNode, leaves_error (run_bind_error (run_nodeAt_none absent))]
          exact .inl rfl
      · rename_i id newParent index
        left
        simp only [moveNode, leaves_get_bind]
        cases model.nodes.lookup id with
        | none => rfl
        | some node =>
          simp only [leaves_ite, leaves_throw, leaves_set]
          split_ifs <;> rfl

theorem graces_after (wellFormed : model.WellFormed) {call : Call}
    (called : call.after model = some after) {deadline : Instant}
    (clock : ∀ id now, call = .removeNode id now → deadline ≤ now + grace)
    (graces : model.Graces deadline) : after.Graces deadline := by
  rcases graces with tainted | ⟨held, until', reaches⟩
  · exact .inl ((raiseOnly_after called).1 tainted)
  · rcases ghost_after wellFormed called with same | ⟨id, now, removes, starts⟩
    · exact .inr ⟨held, same.trans until', reaches⟩
    · exact .inr ⟨now + grace, starts, clock id now removes⟩

theorem graces_run (wellFormed : model.WellFormed) {calls : List Call} {deadline : Instant}
    (run : model.run calls = some after)
    (clock : ∀ id now, Call.removeNode id now ∈ calls → deadline ≤ now + grace)
    (graces : model.Graces deadline) : after.Graces deadline := by
  induction calls generalizing model with
  | nil =>
    cases run
    exact graces
  | cons call calls induction =>
    rw [run_cons] at run
    rcases wellFormed.call_after call with ⟨middle, called, kept, _⟩
    rw [called, Option.bind_some] at run
    refine induction kept run (fun id now later => clock id now (List.mem_cons_of_mem _ later)) ?_
    exact graces_after wellFormed called
      (fun id now same => clock id now (same ▸ List.mem_cons_self)) graces

/-! ## Facts of a published view -/

section Published

variable {size : Int32 × Int32} {commit : Commit} {view : View} {order : List (UInt32 × Class)}
  {kept : Finset UInt32}

theorem publish_dropped {before done : Published} {order : List (UInt32 × Class)}
    (run : model.publish size kept before order = some done) :
    done.secretDropped = (before.secretDropped ||
      order.any fun entry => entry.1 ∉ kept ∧ entry.2 = .secret) := by
  induction order generalizing before with
  | nil =>
    cases run
    simp
  | cons entry order induction =>
    rcases entry with ⟨id, «class»⟩
    rw [Model.publish] at run
    split at run
    · rename_i dropped
      rw [induction run]
      simp [dropped, Bool.or_assoc]
    · rename_i keeps
      rcases Option.bind_eq_some_iff.mp run with ⟨node, found, run⟩
      rw [induction run]
      simp [not_not.mp keeps]

theorem Publishes.took (publishes : Publishes model size now commit view order kept)
    (committed : model.commit size now = some (.ok (some (commit, view)) after)) :
    view.ghostUntil = model.ghostUntil ∧
      view.secretDropped = order.any fun entry => entry.1 ∉ kept ∧ entry.2 = .secret := by
  rw [Model.commit] at committed
  split at committed
  · cases committed
  · split at committed
    · cases committed
    · rw [publishes.ordered, Option.bind_eq_bind, Option.bind_some] at committed
      split at committed
      · cases committed
      · rcases Option.bind_eq_some_iff.mp committed with ⟨⟨published, left⟩, made, committed⟩
        cases committed
        rw [Model.commitOrder, publishes.chosen, Option.bind_eq_bind, Option.bind_some] at made
        rcases Option.bind_eq_some_iff.mp made with ⟨done, ran, made⟩
        cases made
        exact ⟨rfl, by simpa using publish_dropped ran⟩

theorem Publishes.facts (wellFormed : model.WellFormed)
    (publishes : Publishes model size now commit view order kept)
    {classes : List (UInt32 × Class)} (ordered : model.effective later = some classes) :
    ∃ facts, view.secretFacts later = some facts ∧
      (view.whole later → facts.known ∧ facts.unplaced) ∧
      ∀ entry ∈ classes, entry.1 ∈ kept → entry.2 = .secret →
        facts.known ∧ (facts.unplaced ∨ ∃ rect ∈ facts.rects, view.spot entry = some rect) := by
  have present : ∀ entry ∈ classes.filter (·.1 ∈ kept), (view.nodes.lookup entry.1).isSome := by
    intro entry member
    have keeps : entry.1 ∈ kept := of_decide_eq_true (List.mem_filter.mp member).2
    rw [publishes.nodes, if_pos keeps, Option.isSome_map]
    exact publishes.closed.present entry.1 keeps
  refine ⟨_, secretFacts_eq (publishes.effective wellFormed ordered) present, fun whole => ?_,
    fun entry member keeps secret => ?_⟩
  · simp [View.unplaced, whole]
  · have among : entry ∈ classes.filter (·.1 ∈ kept) :=
      List.mem_filter.mpr ⟨member, decide_eq_true keeps⟩
    have known : (classes.filter (·.1 ∈ kept)).any (·.2 = .secret) :=
      List.any_eq_true.mpr ⟨entry, among, decide_eq_true secret⟩
    refine ⟨by simp only [known, Bool.or_true], ?_⟩
    by_cases unplaced : view.unplaced later (classes.filter (·.1 ∈ kept))
    · exact .inl unplaced
    · cases spot : view.spot entry with
      | none =>
        have nowhere : (classes.filter (·.1 ∈ kept)).any
            fun entry => entry.2 = .secret ∧ view.spot entry = none :=
          List.any_eq_true.mpr ⟨entry, among, decide_eq_true ⟨secret, spot⟩⟩
        exact absurd (by simp only [View.unplaced, nowhere, Bool.or_true, Bool.true_or]) unplaced
      | some rect =>
        refine .inr ⟨rect, ?_, rfl⟩
        rw [if_neg unplaced]
        exact List.mem_filterMap.mpr ⟨entry, among, spot⟩

theorem published_rect (node : Node) (size : Int32 × Int32) (kept : Finset UInt32) :
    (node.published size kept).rect = node.rect.map fun rect => (rect.clamped size).1 := by
  unfold Node.published Node.clampedTo
  cases placed : node.rect with
  | none => simp
  | some rect => simp

/-- A secret node's part of the surface is in a rectangle of the facts, or they say
that some secret has no place. -/
def SecretFacts.Cover (facts : SecretFacts) (model : Model) (size : Int32 × Int32) (id : UInt32) :
    Prop :=
  facts.known ∧ (facts.unplaced ∨
    ∃ declared, (model.nodes.lookup id).bind (·.rect) = some declared ∧ ∃ rect ∈ facts.rects,
      ∀ x y, OnSurface size x y → declared.Has x y → rect.Has x y)

/-- A node that was secret when it was left out is covered with the whole surface, and
one that was kept by its own rectangle. -/
theorem Publishes.covers (wellFormed : model.WellFormed)
    (publishes : Publishes model size now commit view order kept)
    (committed : model.commit size now = some (.ok (some (commit, view)) after))
    (since : now ≤ later) : ∃ facts, view.secretFacts later = some facts ∧
      (view.whole later → facts.known ∧ facts.unplaced) ∧
      ∀ id, model.hides later id → facts.Cover model size id := by
  rcases wellFormed.effective_some later with ⟨classes, ordered, _, distinct, _⟩
  rcases publishes.facts wellFormed ordered with ⟨facts, told, whole, each⟩
  refine ⟨facts, told, whole, fun id hides => ?_⟩
  by_cases keeps : id ∈ kept
  · rw [hides_eq ordered, decide_eq_true_eq, classAt_eq_some distinct] at hides
    rcases each _ hides keeps rfl with ⟨known, unplaced | ⟨rect, listed, spot⟩⟩
    · exact ⟨known, .inl unplaced⟩
    · rcases Option.isSome_iff_exists.mp (publishes.closed.present id keeps) with ⟨node, found⟩
      have copied : view.nodes.lookup id = some (node.published size kept) := by
        rw [publishes.nodes, if_pos keeps, found]
        rfl
      rw [View.spot, if_pos rfl, copied, Option.bind_some, published_rect] at spot
      rcases Option.map_eq_some_iff.mp (Option.filter_eq_some_iff.mp spot).1 with
        ⟨declared, placed, rfl⟩
      refine ⟨known, .inr ⟨declared, ?_, _, listed, fun x y => clamped_has⟩⟩
      rw [found, Option.bind_some, placed]
  · have earlier := hides_earlier wellFormed since hides
    rcases wellFormed.effective_some now with ⟨_, ordered', _, distinct', _⟩
    rw [hides_eq ordered', decide_eq_true_eq, classAt_eq_some distinct'] at earlier
    rw [publishes.ordered] at ordered'
    cases ordered'
    have dropped : view.secretDropped := by
      rw [(publishes.took committed).2]
      exact List.any_eq_true.mpr ⟨_, earlier, decide_eq_true ⟨keeps, rfl⟩⟩
    have covered := whole (by simp [View.whole, dropped])
    exact ⟨covered.1, .inl covered.2⟩

theorem Publishes.whole_of_graces (publishes : Publishes model size now commit view order kept)
    (committed : model.commit size now = some (.ok (some (commit, view)) after))
    {deadline : Instant} (graces : model.Graces deadline) (ahead : later < deadline) :
    view.whole later := by
  rw [View.whole, publishes.tainted, (publishes.took committed).1]
  rcases graces with tainted | ⟨held, until', reaches⟩
  · simp [tainted]
  · have holds : later < held := Nat.lt_of_lt_of_le ahead reaches
    simp [until', holds]

end Published

/-! ## Runs -/

def Call.removedAt : Call → Option Instant
  | removeNode _ now => some now
  | _ => none

/-- Where a call takes out a node that reads as secret, it takes out one whose own
record is secret. -/
def Model.Owned (model : Model) : Call → Prop
  | .removeNode id now =>
    (∃ other, Above (parentsOf model.nodes) id other ∧ model.hides now other) →
      model.tainted ∨ model.familyOwns now id
  | _ => True

def sheltering : List Call :=
  [.setRoot 1, .addNode 2 1 0, .setSensitivity 1 2, .setRect 1 0 0 10 10]

/-- A secret root that has a place, and a node below it. -/
def shelter : Model :=
  { rootOnly secretRoot none with
    nodes := updateAt 1 (fun node => { node with rect := some ⟨0, 0, 10, 10⟩ })
      (updateAt 1 (withChildren (insertChild 0 2))
        ((Finmap.insert 1 (Node.new 0) ∅ : Nodes).insert 2 (Node.new 1))) }

def sheltered : Model :=
  { shelter with
    nodes := updateAt 1 (withChildren (·.filter (· ≠ 2))) (shelter.nodes.erase 2) }

theorem run_sheltering : Model.new.run sheltering = some shelter := rfl

theorem removeAll_shelter :
    removeAll secretRoot 0 shelter.nodes false [2] = (shelter.nodes.erase 2, false) := by
  have found' : shelter.nodes.lookup 2 = some (Node.new 1) := rfl
  rw [removeAll]
  split
  · rename_i node found
    rw [found'] at found
    cases found
    rw [show (Node.new 1).children.reverse ++ [] = [] from rfl, removeAll]
    congr 1
  · rename_i absent
    rw [found'] at absent
    cases absent

theorem removed_shelter : (Call.removeNode 2 0).after shelter = some sheltered := by
  have found : shelter.nodes.lookup 2 = some (Node.new 1) := rfl
  rw [Model.WellFormed.after_edit rfl, Model.WellFormed.leaves_done, removeNode,
    leaves_bind_ok (run_nodeAt_some found), leaves_get_bind]
  simp only [show shelter.sec = secretRoot from rfl, removeAll_shelter]
  rfl

theorem contains_sheltered (id : UInt32) : sheltered.contains id ↔ id = 1 := by
  rw [Model.contains, sheltered, lookup_updateAt]
  by_cases same : id = 1
  · rw [if_pos same]
    exact iff_of_true rfl same
  · rw [if_neg same]
    refine iff_of_false ?_ same
    by_cases gone : id = 2
    · rw [gone, Finmap.lookup_erase]
      exact Bool.false_ne_true
    · rw [Finmap.lookup_erase_ne gone, shelter, lookup_updateAt, if_neg same, lookup_updateAt,
        if_neg same, Finmap.lookup_insert_of_ne _ gone, Finmap.lookup_insert_of_ne _ same]
      exact Bool.false_ne_true

end EclipseOS.Abyss.Semantic
