import EclipseOS.Abyss.Semantic.View

/-! # A node raised to secret stays secret

Whether a node is secret for good is kept by id, apart from the node itself, and no
request takes it back. A full table taints the whole surface instead. -/

namespace EclipseOS.Abyss.Semantic

open Foundation PolicyEval

def Model.lasting (model : Model) (id : UInt32) : Bool :=
  model.tainted || (model.sec.lookup id).any (·.lasting)

/-- The node a call raises to secret, where it is carried out. -/
def Call.raises : Call → Option UInt32
  | setSensitivity id «class» => if «class» = 0 ∨ «class» = 1 then none else some id
  | setRole id role => if min role roleUnknown = rolePassword then some id else none
  | setExt id key value _ _ =>
    let value := clean value extValueMax false
    if stripExt key = "credential" ∧ ¬(value = "false" ∨ value = "0") then some id else none
  | _ => none

/-- No id and no surface that was secret for good has ceased to be. -/
def RaiseOnly (model after : Model) : Prop :=
  (model.tainted → after.tainted) ∧
    ∀ id, (model.sec.lookup id).any (·.lasting) → (after.sec.lookup id).any (·.lasting)

namespace RaiseOnly

theorem refl (model : Model) : RaiseOnly model model := ⟨id, fun _ => id⟩

theorem trans {first middle last : Model} (left : RaiseOnly first middle)
    (right : RaiseOnly middle last) : RaiseOnly first last :=
  ⟨right.1 ∘ left.1, fun id => right.2 id ∘ left.2 id⟩

variable {model after : Model}

theorem of_same (tainted : after.tainted = model.tainted) (sec : after.sec = model.sec) :
    RaiseOnly model after := by
  rw [RaiseOnly, tainted, sec]
  exact ⟨id, fun _ => id⟩

theorem lasting (raiseOnly : RaiseOnly model after) {id : UInt32} (before : model.lasting id) :
    after.lasting id := by
  rw [Model.lasting, Bool.or_eq_true] at before ⊢
  exact before.imp raiseOnly.1 (raiseOnly.2 id)

theorem insert {id : UInt32} {sec : Sec} (tainted : after.tainted = model.tainted)
    (written : after.sec = model.sec.insert id sec)
    (raises : ∀ old, model.sec.lookup id = some old → old.lasting → sec.lasting) :
    RaiseOnly model after := by
  refine ⟨fun before => tainted ▸ before, fun other before => ?_⟩
  rw [written]
  by_cases same : other = id
  · rw [same, Finmap.lookup_insert]
    rw [same] at before
    rcases (Option.any_eq_true _ _).mp before with ⟨old, found, lasts⟩
    exact raises old found lasts
  · rwa [Finmap.lookup_insert_of_ne _ same]

theorem raised (model : Model) (id : UInt32) {raise : Sec → Sec}
    (raises : ∀ old, model.sec.lookup id = some old → old.lasting → (raise old).lasting) :
    RaiseOnly model (model.raised id raise) := by
  unfold Model.raised
  split
  · rename_i sec found
    exact insert rfl rfl fun old found' => by
      rw [found] at found'
      cases found'
      exact raises sec found
  · rename_i absent
    split
    · exact ⟨fun _ => rfl, fun _ old => old⟩
    · exact insert rfl rfl fun old found' => by
        rw [absent] at found'
        cases found'

theorem writes : Writes RaiseOnly where
  refl := .refl
  trans := .trans
  node _ _ _ _ := .of_same rfl rfl
  raised := raised
  held model id old sec found lasts := by
    refine .insert rfl rfl fun old' found' => ?_
    rw [found] at found'
    cases found'
    exact lasts
  structural _ := .of_same rfl rfl
  value _ := .of_same rfl rfl
  warned _ := .of_same rfl rfl

end RaiseOnly

/-! ## Requests -/

/-- A request that takes no secrecy back, refused or not. -/
def OnlyRaises {α : Type} (edit : Edit α) : Prop := Preserves RaiseOnly edit

namespace OnlyRaises

theorem setRoot (id : UInt32) : OnlyRaises (setRoot id) := by
  intro model
  simp only [Semantic.setRoot, leaves_get_bind, leaves_ite, leaves_throw, leaves_pure, leaves_set]
  split_ifs <;> exact .of_same rfl rfl

theorem addNode (id parent index : UInt32) : OnlyRaises (addNode id parent index) := by
  intro model
  simp only [Semantic.addNode, leaves_get_bind, leaves_ite, leaves_throw, leaves_set]
  split_ifs <;> exact .of_same rfl rfl

theorem removeNode (id : UInt32) (now : Instant) : OnlyRaises (removeNode id now) := by
  refine RaiseOnly.writes.bind (RaiseOnly.writes.nodeAt id) fun node model => ?_
  simp only [leaves_get_bind, leaves_set]
  split <;> exact .of_same rfl rfl

theorem moveNode (id newParent index : UInt32) : OnlyRaises (moveNode id newParent index) := by
  intro model
  simp only [Semantic.moveNode, leaves_get_bind]
  cases model.nodes.lookup id with
  | none => exact .refl model
  | some node =>
    simp only [leaves_ite, leaves_throw, leaves_set]
    split_ifs <;> exact .of_same rfl rfl

end OnlyRaises

/-! ## Raises -/

/-- A request that was carried out leaves the id secret for good. -/
def Ensures {α : Type} (id : UInt32) (edit : Edit α) : Prop :=
  ∀ model value after, edit.run model = .ok value after → after.lasting id

namespace Ensures

variable {α β : Type} {id : UInt32}

theorem last {edit : Edit α} {next : α → Edit β} (rest : ∀ value, Ensures id (next value)) :
    Ensures id (edit >>= next) := by
  intro model value after run
  rcases of_run_bind run with ⟨made, middle, _, run⟩
  exact rest made middle value after run

theorem first {edit : Edit α} {next : α → Edit β} (ensures : Ensures id edit)
    (rest : ∀ value, OnlyRaises (next value)) : Ensures id (edit >>= next) := by
  intro model value after run
  rcases of_run_bind run with ⟨made, middle, first, run⟩
  have kept := rest made middle
  rw [leaves_ok run] at kept
  exact kept.lasting (ensures model made middle first)

theorem secRaise {raise : Sec → Sec} (raises : ∀ old, (raise old).lasting) :
    Ensures id (secRaise id raise) := by
  intro model value after run
  rw [run_secRaise] at run
  cases run
  unfold Model.raised
  split
  · simp [Model.lasting, raises]
  · split
    · simp [Model.lasting]
    · simp [Model.lasting, raises]

theorem setRole {role : UInt32} (password : min role roleUnknown = rolePassword) :
    Ensures id (setRole id role) := by
  refine last fun _ => ?_
  rw [if_pos password]
  exact first (secRaise fun old => by simp [Sec.lasting]) fun _ =>
    RaiseOnly.writes.bind (RaiseOnly.writes.updateNode id) fun _ => RaiseOnly.writes.markStructural

theorem setSensitivity {level : UInt32} (above : ¬(level = 0 ∨ level = 1)) :
    Ensures id (setSensitivity id level) := by
  rw [not_or] at above
  refine last fun _ model value after run => ?_
  simp only [above.1, above.2, if_false] at run
  rcases of_run_bind run with ⟨_, _, read, run⟩
  cases read
  split at run
  · cases run
  · split at run
    · exact first (secRaise fun old => by simp [Sec.lasting])
        (fun _ => RaiseOnly.writes.markStructural)
        model value after run
    · rename_i high
      cases run
      rw [Model.lasting]
      cases found : model.sec.lookup id with
      | none => simp [found, Class.rank] at high
      | some sec =>
        have secret : sec.class = .secret := by
          rw [found, Option.elim_some] at high
          cases level : sec.class <;> simp [level, Class.rank] at high ⊢
        simp [Sec.lasting, secret]

theorem setCredential {value : String} (raises : ¬(value = "false" ∨ value = "0")) :
    Ensures id (setCredential id value) := by
  rw [Semantic.setCredential, if_neg raises]
  refine first (secRaise fun old => by simp [Sec.lasting]) fun _ => ?_
  have raises := RaiseOnly.writes
  exact .ite (raises.bind raises.markStructural fun _ => raises.pure _) (raises.pure _)

theorem setExt {key value : String} (now : Instant) (taxonomyKnown : Bool)
    (credential : stripExt key = "credential")
    (raises : ¬(clean value extValueMax false = "false" ∨ clean value extValueMax false = "0")) :
    Ensures id (setExt id key value now taxonomyKnown) := by
  have clamped : ¬"credential" = "clamped" := by decide
  refine last fun _ => ?_
  simp only [credential, clamped, if_false, if_true]
  split
  · exact last fun _ => setCredential raises
  · exact setCredential raises

theorem done {edit : Edit Unit} (ensures : Ensures id edit) : Ensures id edit.done :=
  first ensures fun _ => RaiseOnly.writes.pure _

end Ensures

/-! ## Runs -/

variable {model after : Model}

theorem raiseOnly_edit {call : Call} {edit : Edit Reply} (request : call.edit = some edit) :
    RaiseOnly model (leaves edit model) := by
  cases plain : call.relinks with
  | false => exact Model.WellFormed.writes_edit RaiseOnly.writes plain request
  | true =>
    cases call <;> cases plain <;> cases request
    all_goals rw [Model.WellFormed.leaves_done]
    · exact OnlyRaises.setRoot _ model
    · exact OnlyRaises.addNode _ _ _ model
    · exact OnlyRaises.removeNode _ _ model
    · exact OnlyRaises.moveNode _ _ _ model

theorem commit_leaves {size : Int32 × Int32} {now : Instant}
    (called : (Call.commit size now).after model = some after) :
    after.tainted = model.tainted ∧ after.sec = model.sec ∧ after.ghostUntil = model.ghostUntil := by
  rcases Option.map_eq_some_iff.mp called with ⟨_, performed, rfl⟩
  rcases Option.map_eq_some_iff.mp performed with ⟨result, committed, rfl⟩
  rw [Model.commit] at committed
  split at committed
  · cases committed
    exact ⟨rfl, rfl, rfl⟩
  · split at committed
    · cases committed
      exact ⟨rfl, rfl, rfl⟩
    · rcases Option.bind_eq_some_iff.mp committed with ⟨order, ordered, committed⟩
      split at committed
      · cases committed
        exact ⟨rfl, rfl, rfl⟩
      · rcases Option.bind_eq_some_iff.mp committed with ⟨⟨published, left⟩, made, committed⟩
        cases committed
        rcases Option.bind_eq_some_iff.mp made with ⟨kept, _, made⟩
        rcases Option.bind_eq_some_iff.mp made with ⟨done, _, made⟩
        cases made
        refine ⟨?_, ?_, ?_⟩
        · show (if model.dirtyStructural then _ else _ : Model).tainted = _
          split <;> rfl
        · show (if model.dirtyStructural then _ else _ : Model).sec = _
          split <;> rfl
        · show (if model.dirtyStructural then _ else _ : Model).ghostUntil = _
          split <;> rfl

theorem raiseOnly_after {call : Call} (called : call.after model = some after) :
    RaiseOnly model after := by
  cases request : call.edit with
  | some edit =>
    rw [Model.WellFormed.after_edit request] at called
    cases called
    exact raiseOnly_edit request
  | none =>
    cases call <;> cases request
    exact .of_same (commit_leaves called).1 (commit_leaves called).2.1

theorem raiseOnly_run {calls : List Call} (run : model.run calls = some after) :
    RaiseOnly model after := by
  induction calls generalizing model with
  | nil =>
    cases run
    exact .refl _
  | cons call calls induction =>
    rw [run_cons] at run
    rcases Option.bind_eq_some_iff.mp run with ⟨middle, called, rest⟩
    exact (raiseOnly_after called).trans (induction rest)

theorem lasting_of_raises {call : Call} {id : UInt32} (raises : call.raises = some id)
    {reply : Reply} (performed : call.perform model = some (.ok reply after)) :
    after.lasting id := by
  have ran {edit : Edit Reply} (request : call.edit = some edit) : edit.run model = .ok reply after := by
    rw [perform_eq_edit request] at performed
    exact Option.some.inj performed
  cases call
  case setSensitivity other level =>
    simp only [Call.raises, ite_eq_iff, reduceCtorEq, and_false, false_or, Option.some.injEq] at raises
    rcases raises with ⟨above, rfl⟩
    exact (Ensures.setSensitivity above).done _ _ _ (ran rfl)
  case setRole other role =>
    simp only [Call.raises, Option.ite_none_right_eq_some, Option.some.injEq] at raises
    rcases raises with ⟨password, rfl⟩
    exact (Ensures.setRole password).done _ _ _ (ran rfl)
  case setExt other key value now known =>
    simp only [Call.raises, Option.ite_none_right_eq_some, Option.some.injEq] at raises
    rcases raises with ⟨⟨credential, raising⟩, rfl⟩
    have ensures : Ensures other (setExt other key value now known) :=
      .setExt now known credential raising
    have run : (.ext <$> setExt other key value now known : Edit Reply).run model =
        .ok reply after := ran rfl
    rw [map_eq_pure_bind] at run
    exact (Ensures.first ensures fun _ => RaiseOnly.writes.pure _) _ _ _ run
  all_goals cases raises

theorem classIn_of_lasting {id : UInt32} (lasting : model.lasting id) (now : Instant)
    (inherited : Class) : model.classIn now id inherited = .secret := by
  unfold Model.classIn
  rcases Bool.or_eq_true_iff.mp lasting with tainted | own
  · rw [if_pos tainted]
  · rcases (Option.any_eq_true _ _).mp own with ⟨sec, found, lasts⟩
    have secret : sec.local now = .secret := by
      rw [Sec.local, if_pos]
      rw [Sec.lasting] at lasts
      simp [Sec.secretAt, lasts]
    rw [found, Option.elim_some, secret]
    split
    · rfl
    · cases inherited <;> rfl

/-- An id that was once raised to secret is secret in every view committed later that
has it, however often it was removed and added, and at whatever time it is read. -/
theorem raised_stays_secret {before between : List Call} {call : Call} {id : UInt32}
    {start raised model after : Model} {reply : Reply} {size : Int32 × Int32} {now : Instant}
    {commit : Commit} {view : View} (begun : Model.new.run before = some start)
    (raises : call.raises = some id) (performed : call.perform start = some (.ok reply raised))
    (went : raised.run between = some model)
    (committed : model.commit size now = some (.ok (some (commit, view)) after))
    (present : (view.nodes.lookup id).isSome) (later : Instant) :
    view.classOf id later = some (some .secret) := by
  have lasting : model.lasting id :=
    (raiseOnly_run went).lasting (lasting_of_raises raises performed)
  have wellFormed : model.WellFormed := by
    rcases wellFormed_new.run (before ++ call :: between) with ⟨model', run, wellFormed⟩
    have called : call.after start = some raised := by
      rw [Call.after, performed]
      rfl
    rw [run_append, begun, Option.bind_some, run_cons, called, Option.bind_some, went] at run
    cases run
    exact wellFormed
  rcases publishes wellFormed committed with ⟨_, kept, publishes⟩
  rcases wellFormed.effective_some later with ⟨order, ordered, _, _, all⟩
  have keeps : id ∈ kept := by
    by_contra dropped
    rw [publishes.nodes, if_neg dropped] at present
    cases present
  rw [View.classOf, publishes.effective wellFormed ordered]
  show some (((order.filter (·.1 ∈ kept)).find? (·.1 = id)).map (·.2)) = _
  cases found : (order.filter (·.1 ∈ kept)).find? (·.1 = id) with
  | none =>
    rcases List.mem_map.mp ((all id).mpr (contains_iff.mp (publishes.closed.present id keeps)))
      with ⟨entry, member, rfl⟩
    have missed := List.find?_eq_none.mp found entry
      (List.mem_filter.mpr ⟨member, by simpa using keeps⟩)
    simp at missed
  | some entry =>
    have same : entry.1 = id := by simpa using List.find?_some found
    have member := (List.mem_filter.mp (List.mem_of_find?_eq_some found)).1
    have secret := secret_of_own ordered member
      fun inherited => classIn_of_lasting (same ▸ lasting) later inherited
    exact congrArg (fun level => some (some level)) secret

/-- A tree of one node with the record given. -/
def rootOnly (sec : Secs) (ghostUntil : Option Instant) : Model :=
  { Model.new with
    nodes := Finmap.insert 1 (Node.new 0) ∅, root := 1, sec, ghostUntil, dirtyStructural := true }

def secretRoot : Secs := Finmap.insert 1 { Sec.new with «class» := .secret } ∅

theorem removeAll_root :
    removeAll secretRoot 0 (rootOnly secretRoot none).nodes false [1] = (∅, true) := by
  rw [removeAll]
  split
  · rename_i node found
    rw [rootOnly, Finmap.lookup_insert] at found
    cases found
    rw [show (Node.new 0).children.reverse ++ [] = [] from rfl, removeAll]
    congr 1
  · rename_i absent
    rw [rootOnly, Finmap.lookup_insert] at absent
    cases absent

/-- A root that was secret, was removed and set again. -/
theorem raised_stays_secret_readded : ∃ commit view after,
    (rootOnly secretRoot (some grace)).commit (100, 100) 0 =
        some (.ok (some (commit, view)) after) ∧
      ∀ later, view.classOf 1 later = some (some .secret) := by
  have begun : Model.new.run [.setRoot 1] = some (rootOnly ∅ none) := rfl
  have performed : (Call.setSensitivity 1 2).perform (rootOnly ∅ none) =
      some (.ok .done (rootOnly secretRoot none)) := rfl
  have went : (rootOnly secretRoot none).run [.removeNode 1 0, .setRoot 1] =
      some (rootOnly secretRoot (some grace)) := by
    rw [run_cons, Model.WellFormed.after_edit rfl, Model.WellFormed.leaves_done, removeNode,
      leaves_bind_ok (run_nodeAt_some (Finmap.lookup_insert _)), leaves_get_bind]
    simp only [show (rootOnly secretRoot none).sec = secretRoot from rfl, removeAll_root]
    rfl
  have wellFormed : (rootOnly secretRoot (some grace)).WellFormed := by
    rcases wellFormed_new.run [.setRoot 1, .setSensitivity 1 2, .removeNode 1 0, .setRoot 1] with
      ⟨model, run, wellFormed⟩
    have called : (Call.setSensitivity 1 2).after (rootOnly ∅ none) =
        some (rootOnly secretRoot none) := rfl
    rw [show [Call.setRoot 1, .setSensitivity 1 2, .removeNode 1 0, .setRoot 1] =
      [.setRoot 1] ++ .setSensitivity 1 2 :: [.removeNode 1 0, .setRoot 1] from rfl,
      run_append, begun, Option.bind_some, run_cons, called, Option.bind_some, went] at run
    cases run
    exact wellFormed
  rcases commit_publishes wellFormed rfl (by decide) (100, 100) 0 with
    ⟨commit, view, after, committed⟩
  rcases publishes wellFormed committed with ⟨order, kept, publishes⟩
  have keeps : 1 ∈ kept := publishes.mem_kept wellFormed (by decide) rfl
  have present : (view.nodes.lookup 1).isSome := by
    rw [publishes.nodes, if_pos keeps]
    rfl
  exact ⟨commit, view, after, committed,
    raised_stays_secret begun rfl performed went committed present⟩

end EclipseOS.Abyss.Semantic
