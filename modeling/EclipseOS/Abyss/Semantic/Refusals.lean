import EclipseOS.Abyss.Semantic.Commit
import EclipseOS.Foundation.Atomic

/-! # Refused requests

A refusal leaves the model as it was, but for one: an echo extension is written
into the raise-only record before the node is found to hold too many extensions. -/

namespace EclipseOS.Abyss.Semantic

open Foundation PolicyEval

/-! ## Parts of a request -/

section Parts

variable {model : Model} {id : UInt32}

theorem run_nodeAt_some {node : Node} (found : model.nodes.lookup id = some node) :
    (nodeAt id).run model = .ok node model := by
  simp only [nodeAt, EStateM.run_bind, EStateM.run_get, found]
  rfl

theorem run_nodeAt_none (absent : model.nodes.lookup id = none) :
    (nodeAt id).run model = .error .invalidNode model := by
  simp only [nodeAt, EStateM.run_bind, EStateM.run_get, absent]
  rfl

theorem inspects_nodeAt (id : UInt32) : Inspects (nodeAt id) := by
  intro model
  cases found : model.nodes.lookup id with
  | some node => exact .inl ⟨node, run_nodeAt_some found⟩
  | none => exact .inr ⟨_, run_nodeAt_none found⟩

theorem atomic_updateNode (id : UInt32) (update : Node → Node) : Atomic (updateNode id update) :=
  (inspects_nodeAt id).bind fun _ => (total_modify _).atomic

theorem run_updateNode_some {node : Node} (update : Node → Node)
    (found : model.nodes.lookup id = some node) :
    (updateNode id update).run model =
      .ok () { model with nodes := updateAt id update model.nodes } :=
  run_bind_ok (run_nodeAt_some found)

theorem run_updateNode_none (update : Node → Node) (absent : model.nodes.lookup id = none) :
    (updateNode id update).run model = .error .invalidNode model :=
  run_bind_error (run_nodeAt_none absent)

def Model.raised (model : Model) (id : UInt32) (raise : Sec → Sec) : Model :=
  match model.sec.lookup id with
  | some sec => { model with sec := model.sec.insert id (raise sec) }
  | none =>
    if secCap ≤ model.sec.keys.card then { model with tainted := true }
    else { model with sec := model.sec.insert id (raise Sec.new) }

def Model.hasRoom (model : Model) (id : UInt32) : Bool :=
  (model.sec.lookup id).isSome || model.sec.keys.card < secCap

theorem run_secRaise (model : Model) (id : UInt32) (raise : Sec → Sec) :
    (secRaise id raise).run model = .ok (model.hasRoom id) (model.raised id raise) := by
  have unfolded : (secRaise id raise).run model = (match model.sec.lookup id with
      | some sec => do
        set { model with sec := model.sec.insert id (raise sec) }
        return true
      | none =>
        if secCap ≤ model.sec.keys.card then do
          set { model with tainted := true }
          return false
        else do
          set { model with sec := model.sec.insert id (raise Sec.new) }
          return true : Edit Bool).run model := rfl
  rw [unfolded, Model.raised, Model.hasRoom]
  cases model.sec.lookup id with
  | some sec => rfl
  | none =>
    by_cases full : secCap ≤ model.sec.keys.card
    · have taken : ¬model.sec.keys.card < secCap := Nat.not_lt.mpr full
      simp only [full, taken, if_true, Option.isSome_none, decide_false, Bool.or_self]
      rfl
    · have room : model.sec.keys.card < secCap := Nat.not_le.mp full
      simp only [full, room, if_false, Option.isSome_none, decide_true, Bool.or_true]
      rfl

theorem total_secRaise (id : UInt32) (raise : Sec → Sec) : Total (secRaise id raise) :=
  fun model => ⟨_, _, run_secRaise model id raise⟩

@[simp] theorem raised_nodes (model : Model) (id : UInt32) (raise : Sec → Sec) :
    (model.raised id raise).nodes = model.nodes := by
  unfold Model.raised
  split
  · rfl
  · split <;> rfl

end Parts

/-! ## Requests -/

theorem atomic_setRoot (id : UInt32) : Atomic (setRoot id) :=
  inspects_get.bind fun _ => (inspects_throw _).atomic.ite <| (total_pure ()).atomic.ite <|
    (inspects_throw _).atomic.ite (total_set _).atomic

theorem atomic_addNode (id parent index : UInt32) : Atomic (addNode id parent index) :=
  inspects_get.bind fun _ => (inspects_throw _).atomic.ite <| (inspects_throw _).atomic.ite <|
    (inspects_throw _).atomic.ite <| (inspects_throw _).atomic.ite (total_set _).atomic

theorem atomic_removeNode (id : UInt32) (now : Instant) : Atomic (removeNode id now) :=
  (inspects_nodeAt id).bind fun _ => inspects_get.bind fun _ => (total_set _).atomic

theorem atomic_moveNode (id newParent index : UInt32) : Atomic (moveNode id newParent index) := by
  refine inspects_get.bind fun model => ?_
  cases model.nodes.lookup id with
  | none => exact (inspects_throw _).atomic
  | some node =>
    exact (inspects_throw _).atomic.ite <| (inspects_throw _).atomic.ite <|
      (inspects_throw _).atomic.ite (total_set _).atomic

theorem atomic_setRole (id role : UInt32) : Atomic (setRole id role) := by
  intro model violation after refused
  cases found : model.nodes.lookup id with
  | none =>
    rw [setRole, run_bind_error (run_updateNode_none _ found)] at refused
    cases refused
    rfl
  | some node =>
    rw [setRole, run_bind_ok (run_updateNode_some _ found)] at refused
    split at refused
    · rw [run_bind_ok (run_secRaise _ _ _)] at refused
      have still : ∃ after, Finmap.lookup id (Model.raised { model with
          nodes := updateAt id (fun node => { node with role := min role roleUnknown })
            model.nodes } id fun sec =>
              { sec with password := true, «class» := .secret }).nodes = some after := by
        simp [lookup_updateAt, found]
      rcases still with ⟨written, still⟩
      rw [run_bind_ok (run_updateNode_some _ still)] at refused
      cases refused
    · cases refused

theorem atomic_setValue (id : UInt32) (value : Value) : Atomic (setValue id value) :=
  inspects_get.bind fun _ => (atomic_updateNode id _).bind fun _ => total_modify _

theorem atomic_setActionLabel (id verb : UInt32) (label : String) :
    Atomic (setActionLabel id verb label) :=
  (inspects_nodeAt id).bind fun _ =>
    ((atomic_updateNode id _).bind fun _ => total_modify _).ite (total_pure ()).atomic

theorem atomic_setSensitivity (id «class» : UInt32) : Atomic (setSensitivity id «class») :=
  (inspects_nodeAt id).bind fun _ => inspects_get.bind fun _ =>
    (inspects_throw _).atomic.ite <|
      (((total_secRaise id _).bind fun _ => total_modify _).ite (total_pure ())).atomic

theorem atomic_setCredential (id : UInt32) (value : String) : Atomic (setCredential id value) :=
  (inspects_get.bind fun _ =>
      ((inspects_throw _).bind fun _ => (total_pure _).atomic).ite (total_pure _).atomic).ite
    ((total_secRaise id _).bind fun _ =>
      ((total_modify _).bind fun _ => total_pure _).ite (total_pure _)).atomic

theorem atomic_setIrreversible (id : UInt32) (value : String) (taxonomyKnown : Bool) :
    Atomic (setIrreversible id value taxonomyKnown) := by
  refine inspects_get.bind fun model => ?_
  cases (model.sec.lookup id).bind (·.irreversible) with
  | some held => exact (inspects_throw _).atomic.ite (total_pure _).atomic
  | none =>
    exact ((total_pure _).ite <| ((total_modify _).bind fun _ => total_pure _).ite <|
      (total_secRaise id _).bind fun _ => (total_modify _).bind fun _ => total_pure _).atomic

theorem atomic_writeExt (id : UInt32) (key value : String) : Atomic (writeExt id key value) :=
  (inspects_nodeAt id).bind fun _ => (inspects_throw _).atomic.ite <|
    (atomic_updateNode id _).bind fun _ => (total_modify _).bind fun _ => total_pure _

/-! ## Echo -/

theorem insert_of_lookup {sec : Secs} {id : UInt32} {record : Sec}
    (found : sec.lookup id = some record) : sec.insert id record = sec := by
  refine Finmap.ext_lookup fun other => ?_
  by_cases same : other = id
  · rw [same, Finmap.lookup_insert, found]
  · rw [Finmap.lookup_insert_of_ne _ same]

/-- What an echo extension leaves before it is written to the node. -/
def Model.echoed (model : Model) (id : UInt32) (value : String) (now : Instant) : Model :=
  if value = "true" ∨ value = "1" then
    match model.sec.lookup id with
    | none => model
    | some sec =>
      if sec.echoOff then
        { model with
          sec := model.sec.insert id { sec with echoOff := false, holdUntil := some (now + grace) }
          dirtyStructural := true }
      else model
  else
    let raised := model.raised id fun sec => { sec with echoOff := true, holdUntil := none }
    if model.hasRoom id then { raised with dirtyStructural := true } else raised

theorem run_setEcho (model : Model) (id : UInt32) (value : String) (now : Instant) :
    (setEcho id value now).run model = .ok () (model.echoed id value now) := by
  unfold setEcho Model.echoed
  by_cases on : value = "true" ∨ value = "1"
  · have read : (get : Edit Model).run model = .ok model model := rfl
    rw [if_pos on, if_pos on, run_bind_ok read]
    cases model.sec.lookup id with
    | none => rfl
    | some sec =>
      by_cases off : sec.echoOff
      · simp only [off, if_true]
        rfl
      · simp only [off]
        rfl
  · rw [if_neg on, if_neg on, run_bind_ok (run_secRaise _ _ _)]
    by_cases room : model.hasRoom id
    · simp only [room, if_true]
      rfl
    · simp only [room]
      rfl

@[simp] theorem echoed_nodes (model : Model) (id : UInt32) (value : String) (now : Instant) :
    (model.echoed id value now).nodes = model.nodes := by
  unfold Model.echoed
  split
  · split
    · rfl
    · split <;> rfl
  · dsimp only
    split <;> simp

/-- Whether an echo extension changes the model before it is written to the node. -/
def Model.echoChanges (model : Model) (id : UInt32) (value : String) : Prop :=
  if value = "true" ∨ value = "1" then
    (model.sec.lookup id).any (·.echoOff) = true
  else
    match model.sec.lookup id with
    | some sec => ¬(sec.echoOff ∧ sec.holdUntil = none ∧ model.dirtyStructural)
    | none => ¬(secCap ≤ model.sec.keys.card ∧ model.tainted)

theorem echoed_eq_iff (model : Model) (id : UInt32) (value : String) (now : Instant) :
    model.echoed id value now = model ↔ ¬model.echoChanges id value := by
  unfold Model.echoed Model.echoChanges
  by_cases on : value = "true" ∨ value = "1"
  · rw [if_pos on, if_pos on]
    cases found : model.sec.lookup id with
    | none => simp
    | some sec =>
      by_cases off : sec.echoOff
      · simp only [off, if_true, Option.any_some, not_true, iff_false]
        intro same
        have record := congrArg (fun model : Model => model.sec.lookup id) same
        simp only [Finmap.lookup_insert, found, Option.some.injEq] at record
        rw [← record] at off
        cases off
      · simp [off]
  · rw [if_neg on, if_neg on]
    cases found : model.sec.lookup id with
    | some sec =>
      have room : model.hasRoom id = true := by simp [Model.hasRoom, found]
      simp only [Model.raised, found, room, if_true, not_not]
      constructor
      · intro same
        have record := congrArg (fun model : Model => model.sec.lookup id) same
        have dirty := congrArg Model.dirtyStructural same
        simp only [Finmap.lookup_insert, found, Option.some.injEq] at record
        rw [← record]
        exact ⟨rfl, rfl, dirty.symm⟩
      · rintro ⟨off, held, dirty⟩
        have same : { sec with echoOff := true, holdUntil := none } = sec := by
          rw [← off, ← held]
        rw [same, insert_of_lookup found, ← dirty]
    | none =>
      by_cases full : secCap ≤ model.sec.keys.card
      · have room : model.hasRoom id = false := by simp [Model.hasRoom, found, full]
        simp only [Model.raised, found, room, full, if_true, Bool.false_eq_true, if_false,
          true_and, not_not]
        constructor
        · exact fun same => (congrArg Model.tainted same).symm
        · exact fun tainted => by rw [← tainted]
      · have room : model.hasRoom id = true := by
          simp [Model.hasRoom, found, Nat.not_le.mp full]
        simp only [Model.raised, found, room, full, if_true, if_false, false_and,
          not_false_eq_true, not_true, iff_false]
        intro same
        have record := congrArg (fun model : Model => model.sec.lookup id) same
        simp only [Finmap.lookup_insert, found] at record
        cases record

/-! ## Extensions -/

/-- Whether the node has no room for another extension of this key. -/
def Node.lacksRoom (node : Node) (key : String) : Bool :=
  ¬node.ext.any (·.1 = key) ∧ extKeys ≤ node.ext.length

theorem run_writeExt {model : Model} {id : UInt32} {node : Node} (key value : String)
    (found : model.nodes.lookup id = some node) :
    (writeExt id key value).run model =
      if node.lacksRoom key then .error .extLimit model
      else .ok .applied { model with
        nodes := updateAt id (fun node => { node with ext := putFirst key value node.ext })
          model.nodes
        dirtyValue := true } := by
  rw [writeExt, run_bind_ok (run_nodeAt_some found)]
  by_cases full : ¬node.ext.any (·.1 = key) ∧ extKeys ≤ node.ext.length
  · rw [if_pos full, Node.lacksRoom, if_pos (decide_eq_true full)]
    rfl
  · have fits : ¬node.lacksRoom key = true := fun lacks => full (of_decide_eq_true lacks)
    rw [if_neg full, run_bind_ok (run_updateNode_some _ found), if_neg fits]
    rfl

theorem atomic_setExt {id : UInt32} {key value : String} {now : Instant} {taxonomyKnown : Bool}
    (other : stripExt key ≠ "echo") : Atomic (setExt id key value now taxonomyKnown) := by
  refine (inspects_nodeAt id).bind fun _ => ?_
  have rest : Atomic (if stripExt key = "clamped" then pure .applied
      else if stripExt key = "credential" then setCredential id (clean value extValueMax false)
      else if stripExt key = "irreversible" then
        setIrreversible id (clean value extValueMax false) taxonomyKnown
      else if stripExt key = "echo" then
        setEcho id (clean value extValueMax false) now >>= fun _ =>
          writeExt id (stripExt key) (clean value extValueMax false)
      else writeExt id (stripExt key) (clean value extValueMax false)) := by
    rw [if_neg other]
    exact (total_pure _).atomic.ite <| (atomic_setCredential id _).ite <|
      (atomic_setIrreversible id _ _).ite (atomic_writeExt id _ _)
  exact ((inspects_throw _).bind fun _ => rest).ite rest

theorem run_setExt_echo {model : Model} {id : UInt32} {node : Node} {key value : String}
    (found : model.nodes.lookup id = some node) (named : stripExt key = "echo")
    (short : byteLen value ≤ extValueMax) (now : Instant) (taxonomyKnown : Bool) :
    (setExt id key value now taxonomyKnown).run model =
      (writeExt id "echo" (clean value extValueMax false)).run
        (model.echoed id (clean value extValueMax false) now) := by
  have accepted : ¬("echo" = "" ∨ extKeyMax < byteLen "echo" ∨ "echo".toList.any isControl ∨
      extValueMax < byteLen value) := by
    have name : ¬("echo" = "" ∨ extKeyMax < byteLen "echo" ∨ "echo".toList.any isControl) := by
      decide
    simp only [not_or] at name ⊢
    exact ⟨name.1, name.2.1, name.2.2, Nat.not_lt.mpr short⟩
  rw [setExt, run_bind_ok (run_nodeAt_some found)]
  simp only [named]
  rw [if_neg accepted]
  exact run_bind_ok (run_setEcho model id _ now)

theorem run_setExt_long {model : Model} {id : UInt32} {node : Node} {key value : String}
    (found : model.nodes.lookup id = some node) (long : extValueMax < byteLen value)
    (now : Instant) (taxonomyKnown : Bool) :
    (setExt id key value now taxonomyKnown).run model = .error .extLimit model := by
  rw [setExt, run_bind_ok (run_nodeAt_some found)]
  dsimp only
  rw [if_pos (.inr (.inr (.inr long)))]
  rfl

/-- An echo extension leaves what it wrote into the raise-only record when the node
has no room for it. -/
theorem refused_setExt_echo {model : Model} {id : UInt32} {node : Node} {key value : String}
    (found : model.nodes.lookup id = some node) (named : stripExt key = "echo")
    (short : byteLen value ≤ extValueMax) (now : Instant) (taxonomyKnown : Bool) :
    (setExt id key value now taxonomyKnown).run model =
      if node.lacksRoom "echo" then
        .error .extLimit (model.echoed id (clean value extValueMax false) now)
      else .ok .applied { model.echoed id (clean value extValueMax false) now with
        nodes := updateAt id (fun node =>
          { node with ext := putFirst "echo" (clean value extValueMax false) node.ext }) model.nodes
        dirtyValue := true } := by
  have still : (model.echoed id (clean value extValueMax false) now).nodes.lookup id =
      some node := by rw [echoed_nodes, found]
  rw [run_setExt_echo found named short, run_writeExt _ _ still, echoed_nodes]

/-! ## Calls -/

/-- An echo extension that changes the raise-only record, the taint or the dirty
flag before the node turns out to have no room for it. -/
def Call.slips (model : Model) : Call → Prop
  | setExt id key value _ _ =>
    stripExt key = "echo" ∧ byteLen value ≤ extValueMax ∧
      (model.nodes.lookup id).any (·.lacksRoom "echo") ∧
      model.echoChanges id (clean value extValueMax false)
  | _ => False

theorem setExt_refusal_iff (model : Model) (id : UInt32) (key value : String) (now : Instant)
    (taxonomyKnown : Bool) :
    (∀ violation after, (setExt id key value now taxonomyKnown).run model =
        .error violation after → after = model) ↔
      ¬(Call.setExt id key value now taxonomyKnown).slips model := by
  by_cases echo : stripExt key = "echo"
  · cases found : model.nodes.lookup id with
    | none =>
      have refused : (setExt id key value now taxonomyKnown).run model =
          .error .invalidNode model :=
        run_bind_error (run_nodeAt_none found)
      simp [refused, Call.slips, found]
    | some node =>
      by_cases short : byteLen value ≤ extValueMax
      · rw [refused_setExt_echo found echo short]
        by_cases full : node.lacksRoom "echo"
        · simp only [Call.slips, echo, short, found, full, if_true, Option.any_some, true_and,
            ← echoed_eq_iff model id (clean value extValueMax false) now]
          simp
        · simp [Call.slips, found, full]
      · rw [run_setExt_long found (Nat.not_le.mp short)]
        simp [Call.slips, short]
  · exact iff_of_true (atomic_setExt echo model) fun slip => echo slip.1

theorem atomic_edit {call : Call} {edit : Edit Reply} (named : call.edit = some edit)
    (plain : ∀ id key value now taxonomyKnown, call ≠ .setExt id key value now taxonomyKnown) :
    Atomic edit := by
  have done {request : Edit Unit} (atomic : Atomic request) : Atomic request.done :=
    atomic.bind fun _ => total_pure _
  have written (id : UInt32) (update : Node → Node) (mark : Edit Unit) (total : Total mark) :
      Atomic (updateNode id update >>= fun _ => mark) :=
    (atomic_updateNode id update).bind fun _ => total
  cases call <;> cases named
  case setRoot id => exact done (atomic_setRoot id)
  case addNode id parent index => exact done (atomic_addNode id parent index)
  case removeNode id now => exact done (atomic_removeNode id now)
  case moveNode id newParent index => exact done (atomic_moveNode id newParent index)
  case setRole id role => exact done (atomic_setRole id role)
  case setName id name => exact done (written id _ _ (total_modify _))
  case setDescription id desc => exact done (written id _ _ (total_modify _))
  case setRect id x y w h => exact done (written id _ _ (total_modify _))
  case setStates id codes => exact done (written id _ _ (total_modify _))
  case setValueText id text cursor selStart selEnd => exact done (atomic_setValue id _)
  case setValueNumber id value min max step => exact done (atomic_setValue id _)
  case setValueUrl id href => exact done (atomic_setValue id _)
  case clearValue id => exact done (written id _ _ (total_modify _))
  case setActions id verbs => exact done (written id _ _ (total_modify _))
  case setActionLabel id verb label => exact done (atomic_setActionLabel id verb label)
  case setSensitivity id «class» => exact done (atomic_setSensitivity id «class»)
  case setExt id key value now taxonomyKnown => exact absurd rfl (plain _ _ _ _ _)

theorem commit_error {model after : Model} {size : Int32 × Int32} {now : Instant}
    {violation : Violation} (refused : model.commit size now = some (.error violation after)) :
    after = model := by
  unfold Model.commit at refused
  split at refused
  · cases refused
  · split at refused
    · cases refused
      rfl
    · rcases Option.bind_eq_some_iff.mp refused with ⟨order, -, refused⟩
      split at refused
      · cases refused
        rfl
      · rcases Option.bind_eq_some_iff.mp refused with ⟨published, -, refused⟩
        cases refused

theorem perform_eq_edit {model : Model} {call : Call} {edit : Edit Reply}
    (named : call.edit = some edit) : call.perform model = some (edit.run model) := by
  cases call <;> cases named <;> rfl

/-- A refused call leaves the model as it was, exactly when it is not an echo
extension that slips. -/
theorem refusals_leave_no_trace_iff (model : Model) (call : Call) :
    (∀ violation after, call.perform model = some (.error violation after) → after = model) ↔
      ¬call.slips model := by
  cases named : call.edit with
  | none =>
    cases call <;> cases named
    exact ⟨fun _ slip => slip, fun _ violation after refused => by
      rename_i size now
      rcases Option.map_eq_some_iff.mp refused with ⟨_ | _, committed, same⟩
      · cases same
      · cases same
        exact commit_error committed⟩
  | some edit =>
    rw [perform_eq_edit named]
    by_cases plain : ∀ id key value now taxonomyKnown,
        call ≠ .setExt id key value now taxonomyKnown
    · have atomic := atomic_edit named plain
      have never : ¬call.slips model := by
        cases call <;> first | exact id | exact absurd rfl (plain _ _ _ _ _)
      exact iff_of_true (fun violation after refused =>
        atomic _ _ _ (Option.some.inj refused)) never
    · simp only [ne_eq, not_forall, not_not] at plain
      rcases plain with ⟨id, key, value, now, taxonomyKnown, rfl⟩
      cases named
      rw [← setExt_refusal_iff model id key value now taxonomyKnown]
      exact forall₂_congr fun violation after => by
        rw [Option.some.injEq, run_map_error_iff]

/-- A root with as many extensions as it may hold. -/
def crowding : List Call :=
  .setRoot 1 ::
    ["a", "b", "c", "d", "e", "f", "g", "h", "i", "j", "k", "l", "m", "n", "o", "p"].map
      fun key => .setExt 1 key "" 0 false

/-- Turning echo off on the crowded root is refused, and remembered. -/
theorem crowded_echo_remembered : ∃ model, Model.new.run crowding = some model ∧
    ∃ violation after, (Call.setExt 1 "echo" "false" 0 false).perform model =
      some (.error violation after) ∧ after ≠ model := by
  have crowded : (Model.new.run crowding).any fun model =>
      (model.nodes.lookup 1).any (·.lacksRoom "echo") && (model.sec.lookup 1).isNone &&
        model.sec.keys.card < secCap := by
    decide +kernel
  rcases (Option.any_eq_true _ _).mp crowded with ⟨model, reached, holds⟩
  simp only [Bool.and_eq_true, Option.isNone_iff_eq_none, decide_eq_true_eq] at holds
  rcases holds with ⟨⟨full, unrecorded⟩, room⟩
  rcases (Option.any_eq_true _ _).mp full with ⟨node, found, lacks⟩
  have changes : model.echoChanges 1 (clean "false" extValueMax false) := by
    have off : ¬(clean "false" extValueMax false = "true" ∨
        clean "false" extValueMax false = "1") := by decide
    rw [Model.echoChanges, if_neg off, unrecorded]
    exact fun both => absurd both.1 (Nat.not_le.mpr room)
  have slip : (Call.setExt 1 "echo" "false" 0 false).slips model :=
    ⟨by decide, by decide, full, changes⟩
  have traced := (setExt_refusal_iff model 1 "echo" "false" 0 false).not.mpr (not_not.mpr slip)
  simp only [not_forall] at traced
  rcases traced with ⟨violation, after, refused, changed⟩
  refine ⟨model, reached, violation, after, ?_, changed⟩
  rw [perform_eq_edit rfl, run_map_error_iff.mpr refused]

end EclipseOS.Abyss.Semantic
