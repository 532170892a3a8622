import EclipseOS.Foundation.History
import EclipseOS.Inferenced.Shim

/-! # One reply to each call

What holds of the shim, the hub and the connection between them in every order of steps: each
call is in one place, and what it waits for is on its way or not yet delivered. -/

namespace EclipseOS.Inferenced.Shim

open Foundation

variable {s next : State} {n m : Nat} {call : Call} {id tuid other : String} {r : ToolResult}
  {params frame : Json} {but : Option String}

/-! ## Frames -/

@[simp] theorem callId_callFrame : callId (callFrame tuid params) = some tuid := by
  simp [callId, callFrame, strField, Json.object, JsonFields.ofList, JsonFields.get_set, Json.get,
    Json.asStr]

@[simp] theorem resultOf_resultFrame : resultOf (resultFrame id r) = some (id, r) := by
  rcases r with ⟨text, isError⟩
  cases isError <;>
    simp [resultOf, resultFrame, strField, isTrue, Json.object, JsonFields.ofList,
      JsonFields.get_set, Json.get, Json.asStr]

namespace State

/-- The ids of the calls whose frames were written, read or not. -/
def announced (s : State) : List String := s.heard ++ s.up.filterMap callId

def inFlight (s : State) : List (String × ToolResult) := s.down.filterMap resultOf

def tuids (s : State) : List (Option String) := s.calls.map Call.tuid

theorem getElem?_tuids (found : s.calls[n]? = some call) : s.tuids[n]? = some call.tuid := by
  rw [tuids, List.getElem?_map, found, Option.map_some]

@[simp] theorem tuids_setCall {changed : Call} (found : s.calls[n]? = some call)
    (same : changed.tuid = call.tuid) : (s.setCall n changed).tuids = s.tuids := by
  apply List.ext_getElem?
  intro m
  have set : (s.setCall n changed).tuids = s.tuids.set n call.tuid := by
    rw [tuids, setCall, List.map_set, same, ← tuids]
  rw [set, List.getElem?_set]
  split_ifs with here there
  · rw [← here, getElem?_tuids found]
  · rw [← here, List.getElem?_eq_none (Nat.le_of_not_lt there)]
  · rfl

theorem getElem?_setCall {changed : Call} (found : s.calls[n]? = some call) :
    (s.setCall n changed).calls[m]? = if m = n then some changed else s.calls[m]? := by
  have bound : n < s.calls.length := (List.getElem?_eq_some_iff.mp found).1
  rw [setCall, List.getElem?_set]
  by_cases here : m = n
  · rw [if_pos here.symm, if_pos bound, if_pos here]
  · rw [if_neg (Ne.symm here), if_neg here]

end State

/-! ## What the hub and the connection keep -/

/-- Every id heard but one is asked about, answered, or lost with the connection. -/
structure Wire (s : State) (but : Option String) : Prop where
  nodup : s.announced.Nodup
  called : ∀ id ∈ s.hub.called,
    id ∈ s.heard ∧ s.hub.early.lookup id = none ∧ ∀ r, (id, r) ∉ s.delivered
  sent : ∀ id r, (id, r) ∈ s.sent → id ∈ s.heard ∧ id ∉ s.hub.called ∧ (id, r) ∈ s.delivered
  once : ∀ id r other, (id, r) ∈ s.sent → (id, other) ∈ s.sent → other = r
  early : ∀ id r, s.hub.early.lookup id = some r → (id, r) ∈ s.delivered
  kept : ∀ id r, (id, r) ∈ s.delivered → id ∈ s.heard ∨ s.hub.early.lookup id ≠ none
  answered : ∀ id ∈ s.heard,
    but = some id ∨ id ∈ s.hub.called ∨ (∃ r, (id, r) ∈ s.sent) ∨ s.cut = true
  flown : ∀ sent ∈ s.inFlight, sent ∈ s.sent
  quiet : s.accept = .attaching → s.heard = []
  gone : s.accept = .detached → s.cut = true
  closed : s.pending.closed = true →
    s.cut = true ∧ s.down = [] ∧ ∀ id, s.pending.map.lookup id = none

/-! ## What a call keeps -/

/-- What may be replied to the call for an id. -/
def Right (s : State) (tuid : String) (r : ToolResult) : Prop :=
  (tuid, r) ∈ s.sent ∨
    r.isError = true ∧ (∀ other, (tuid, other) ∉ s.sent) ∧ (s.cut = true ∨ tuid ∉ s.announced)

/-- What a blocked call waits for: the receiver knows of it, and what is sent is on its way; or
it has its answer. -/
def Held (s : State) (n : Nat) (call : Call) (tuid : String) : Prop :=
  s.pending.map.lookup tuid = some n ∧ call.mail = none ∧
      (∀ r, (tuid, r) ∈ s.sent → (tuid, r) ∈ s.inFlight) ∨
    s.pending.map.lookup tuid = none ∧ ∃ r, call.mail = some r ∧ Right s tuid r

def CallOk (s : State) (n : Nat) (call : Call) : Prop :=
  match call.place with
  | .started => call.replies = [] ∧ call.mail = none ∧
      ∀ tuid, call.tuid = some tuid → tuid ∉ s.announced ∧ s.pending.map.lookup tuid = none
  | .registered => call.replies = [] ∧ ∃ tuid, call.tuid = some tuid ∧ tuid ∉ s.announced ∧
      (s.cut = true ∨ s.pending.map.lookup tuid = some n ∧ call.mail = none)
  | .unsent => call.replies = [] ∧ ∃ tuid, call.tuid = some tuid ∧ tuid ∉ s.announced
  | .waiting => call.replies = [] ∧ ∃ tuid, call.tuid = some tuid ∧ tuid ∈ s.announced ∧
      Held s n call tuid
  | .done => ∃ r, call.replies = [toolReply call.id r] ∧ (call.tuid = none → r.isError = true) ∧
      ∀ tuid, call.tuid = some tuid → Right s tuid r
  | .lost => False

structure Standing (s : State) : Prop where
  unique : ∀ (m n : Nat) (id : String), s.tuids[m]? = some (some id) →
    s.tuids[n]? = some (some id) → m = n
  listed : ∀ id n, s.pending.map.lookup id = some n → s.tuids[n]? = some (some id)
  owned : ∀ id ∈ s.announced, some id ∈ s.tuids
  each : ∀ n call, s.calls[n]? = some call → CallOk s n call
  wire : Wire s none

/-- What a step may change for the call of another id. -/
structure Spares (s next : State) (tuid : String) : Prop where
  announced : tuid ∈ next.announced ↔ tuid ∈ s.announced
  cut : s.cut = true → next.cut = true
  lookup : next.pending.map.lookup tuid = s.pending.map.lookup tuid
  grows : ∀ r, (tuid, r) ∈ s.sent → (tuid, r) ∈ next.sent
  news : ∀ r, (tuid, r) ∈ next.sent → (tuid, r) ∈ s.sent ∨
    (tuid, r) ∈ next.inFlight ∧ s.cut = false ∧ tuid ∈ s.announced
  flight : ∀ n, s.pending.map.lookup tuid = some n →
    ∀ r, (tuid, r) ∈ s.inFlight → (tuid, r) ∈ next.inFlight

theorem Right.spared (right : Right s tuid r) (spares : Spares s next tuid) :
    Right next tuid r := by
  rcases right with sent | ⟨error, unsent, final⟩
  · exact .inl (spares.grows r sent)
  · apply Or.inr
    refine ⟨error, fun other sent => ?_, ?_⟩
    · rcases spares.news other sent with before | ⟨_, standing, announced⟩
      · exact unsent other before
      · rcases final with cut | silent
        · rw [cut] at standing
          cases standing
        · exact silent announced
    · rcases final with cut | silent
      · exact .inl (spares.cut cut)
      · exact .inr (mt spares.announced.mp silent)

theorem Held.spared (held : Held s n call tuid) (spares : Spares s next tuid) :
    Held next n call tuid := by
  rcases held with ⟨listed, empty, flying⟩ | ⟨unlisted, r, mail, right⟩
  · apply Or.inl
    refine ⟨spares.lookup.trans listed, empty, fun r sent => ?_⟩
    rcases spares.news r sent with before | ⟨flies, _⟩
    · exact spares.flight n listed r (flying r before)
    · exact flies
  · exact .inr ⟨spares.lookup.trans unlisted, r, mail, right.spared spares⟩

theorem CallOk.spared (ok : CallOk s n call)
    (spares : ∀ tuid, call.tuid = some tuid → Spares s next tuid) : CallOk next n call := by
  unfold CallOk at ok ⊢
  split at ok
  case h_1 =>
    rcases ok with ⟨replies, mail, fresh⟩
    refine ⟨replies, mail, fun tuid has => ?_⟩
    have kept := spares tuid has
    exact ⟨mt kept.announced.mp (fresh tuid has).1, kept.lookup.trans (fresh tuid has).2⟩
  case h_2 =>
    rcases ok with ⟨replies, tuid, has, silent, held⟩
    have kept := spares tuid has
    refine ⟨replies, tuid, has, mt kept.announced.mp silent, ?_⟩
    rcases held with cut | ⟨listed, empty⟩
    · exact .inl (kept.cut cut)
    · exact .inr ⟨kept.lookup.trans listed, empty⟩
  case h_3 =>
    rcases ok with ⟨replies, tuid, has, silent⟩
    exact ⟨replies, tuid, has, mt (spares tuid has).announced.mp silent⟩
  case h_4 =>
    rcases ok with ⟨replies, tuid, has, announced, held⟩
    have kept := spares tuid has
    exact ⟨replies, tuid, has, kept.announced.mpr announced, held.spared kept⟩
  case h_5 =>
    rcases ok with ⟨r, replies, error, right⟩
    exact ⟨r, replies, error, fun tuid has => (right tuid has).spared (spares tuid has)⟩
  case h_6 => exact ok

theorem Spares.refl (s : State) (tuid : String) : Spares s s tuid where
  announced := Iff.rfl
  cut := id
  lookup := rfl
  grows := fun _ sent => sent
  news := fun _ sent => .inl sent
  flight := fun _ _ _ flies => flies

/-! ## The threads of the calls -/

theorem Standing.setCall (standing : Standing s) (found : s.calls[n]? = some call)
    {changed : Call} (calls : next.calls = s.calls) (same : changed.tuid = call.tuid)
    (spares : ∀ other, call.tuid ≠ some other → Spares s next other)
    (announced : ∀ id ∈ next.announced, id ∈ s.announced ∨ call.tuid = some id)
    (listed : ∀ id m, next.pending.map.lookup id = some m →
      s.pending.map.lookup id = some m ∨ call.tuid = some id ∧ m = n)
    (wire : Wire next none) (ok : CallOk next n changed) :
    Standing (next.setCall n changed) := by
  have here : next.calls[n]? = some call := calls ▸ found
  have tuids : (next.setCall n changed).tuids = s.tuids := by
    rw [State.tuids_setCall here same, State.tuids, calls, State.tuids]
  have own := State.getElem?_tuids found
  constructor
  · rw [tuids]
    exact standing.unique
  · intro id m at_
    rw [tuids]
    rcases listed id m at_ with before | ⟨ours, here⟩
    · exact standing.listed id m before
    · rw [here, own, ours]
  · intro id told
    rw [tuids]
    rcases announced id told with before | ours
    · exact standing.owned id before
    · exact ours ▸ List.mem_of_getElem? own
  · intro m c at_
    rw [State.getElem?_setCall here, calls] at at_
    split_ifs at at_ with same
    · rw [← Option.some.inj at_, same]
      exact ok
    · have kept : CallOk next m c := by
        apply (standing.each m c at_).spared
        intro tuid has
        apply spares
        intro ours
        apply same
        exact standing.unique m n tuid (by rw [State.getElem?_tuids at_, has])
          (by rw [own, ours])
      exact kept
  · exact ⟨wire.nodup, wire.called, wire.sent, wire.once, wire.early, wire.kept, wire.answered,
      wire.flown, wire.quiet, wire.gone, wire.closed⟩

theorem Standing.onlyCall (standing : Standing s) (found : s.calls[n]? = some call)
    {changed : Call} (same : changed.tuid = call.tuid) (ok : CallOk s n changed) :
    Standing (s.setCall n changed) :=
  standing.setCall found rfl same (fun other _ => .refl s other) (fun _ told => .inl told)
    (fun _ _ at_ => .inl at_) standing.wire ok

theorem Wire.unsent (wire : Wire s but) (silent : tuid ∉ s.announced) :
    ∀ r, (tuid, r) ∉ s.sent :=
  fun r sent => silent (List.mem_append_left _ (wire.sent tuid r sent).1)

theorem Wire.rightToFail (wire : Wire s but) (silent : tuid ∉ s.announced) :
    Right s tuid closedSession :=
  .inr ⟨rfl, wire.unsent silent, .inr silent⟩

theorem Wire.setMap (wire : Wire s but) {map : Table String Nat}
    (closed : s.pending.closed = true → ∀ id, map.lookup id = none) :
    Wire { s with pending := { s.pending with map := map } } but :=
  ⟨wire.nodup, wire.called, wire.sent, wire.once, wire.early, wire.kept, wire.answered,
    wire.flown, wire.quiet, wire.gone, fun over_ =>
      ⟨(wire.closed over_).1, (wire.closed over_).2.1, closed over_⟩⟩

theorem Spares.setMap {map : Table String Nat}
    (same : map.lookup tuid = s.pending.map.lookup tuid) :
    Spares s { s with pending := { s.pending with map := map } } tuid :=
  ⟨Iff.rfl, id, same, fun _ sent => sent, fun _ sent => .inl sent,
    fun _ _ _ flies => flies⟩

theorem Standing.thread (standing : Standing s) (found : s.calls[n]? = some call) :
    Standing (s.thread n call) := by
  have ok := standing.each n call found
  have wire := standing.wire
  rw [State.thread]
  unfold CallOk at ok
  split
  case h_1 place bare =>
    rw [place] at ok
    rcases ok with ⟨replies, mail, fresh⟩
    refine standing.onlyCall found rfl ?_
    refine ⟨noToolUseId, ?_, fun _ => rfl, fun tuid has => ?_⟩
    · rw [Call.answered, replies, List.nil_append]
    · cases has.symm.trans bare
  case h_2 tuid place has =>
    rw [place] at ok
    rcases ok with ⟨replies, mail, fresh⟩
    rcases fresh tuid has with ⟨silent, unlisted⟩
    split_ifs with closed
    · refine standing.onlyCall found rfl ?_
      refine ⟨closedSession, ?_, fun _ => rfl, fun other hers => ?_⟩
      · rw [Call.answered, replies, List.nil_append]
      · have same : other = tuid := Option.some.inj (hers.symm.trans has)
        rw [same]
        exact wire.rightToFail silent
    · refine standing.setCall found rfl rfl ?_ ?_ ?_ ?_ ?_
      · intro other different
        apply Spares.setMap
        exact AList.lookup_insert_ne fun same => different (same ▸ has)
      · exact fun _ told => .inl told
      · intro id m at_
        rcases Table.lookup_insert_eq_some.mp at_ with ⟨same, here⟩ | ⟨_, before⟩
        · exact .inr ⟨same ▸ has, here.symm⟩
        · exact .inl before
      · exact wire.setMap fun shut => absurd shut closed
      · exact ⟨replies, tuid, has, silent, .inr ⟨AList.lookup_insert _, mail⟩⟩
  case h_3 tuid place has =>
    rw [place] at ok
    rcases ok with ⟨replies, _, hers, silent, held⟩
    cases Option.some.inj (hers.symm.trans has)
    split_ifs with writes
    · have told : (s.up ++ [callFrame tuid call.params]).filterMap callId =
          s.up.filterMap callId ++ [tuid] := by simp
      have announced : State.announced { s with up := s.up ++ [callFrame tuid call.params] } =
          s.announced ++ [tuid] := by
        rw [State.announced, State.announced, told, List.append_assoc]
      refine standing.setCall found rfl rfl ?_ ?_ ?_ ?_ ?_
      · intro other different
        have apart : other ≠ tuid := fun same => different (same ▸ has)
        refine ⟨?_, id, rfl, fun _ sent => sent, fun _ sent => .inl sent,
    fun _ _ _ flies => flies⟩
        rw [announced, List.mem_append, List.mem_singleton, or_iff_left apart]
      · intro id told
        rw [announced, List.mem_append, List.mem_singleton] at told
        exact told.imp_right fun same => has.trans (congrArg some same.symm)
      · exact fun _ _ at_ => .inl at_
      · refine ⟨?_, wire.called, wire.sent, wire.once, wire.early, wire.kept, wire.answered,
          wire.flown, wire.quiet, wire.gone, wire.closed⟩
        rw [announced]
        exact List.nodup_append.mpr ⟨wire.nodup, List.nodup_singleton _,
          fun id told other here same =>
          silent (List.mem_singleton.mp here ▸ same ▸ told)⟩
      · rcases held with cut | ⟨listed, empty⟩
        · rw [cut] at writes
          cases writes.1
        · refine ⟨replies, tuid, has, ?_, .inl ⟨listed, empty, fun r sent => ?_⟩⟩
          · rw [announced]
            exact List.mem_append_right _ (List.mem_singleton_self _)
          · exact absurd sent (wire.unsent silent r)
    · exact standing.onlyCall found rfl ⟨replies, tuid, has, silent⟩
  case h_4 tuid place has =>
    rw [place] at ok
    rcases ok with ⟨replies, _, hers, silent⟩
    cases Option.some.inj (hers.symm.trans has)
    refine standing.setCall found rfl rfl ?_ ?_ ?_ ?_ ?_
    · intro other different
      apply Spares.setMap
      exact AList.lookup_erase_ne fun same => different (same ▸ has)
    · exact fun _ told => .inl told
    · exact fun id m at_ => .inl (Table.lookup_erase_eq_some.mp at_).2
    · apply wire.setMap
      intro shut id
      apply Option.eq_none_iff_forall_ne_some.mpr
      intro m at_
      have before := (Table.lookup_erase_eq_some.mp at_).2
      rw [(wire.closed shut).2.2 id] at before
      cases before
    · refine ⟨closedSession, ?_, fun _ => rfl, fun other hers => ?_⟩
      · rw [Call.answered, replies, List.nil_append]
      · cases Option.some.inj (hers.symm.trans has)
        exact wire.rightToFail silent
  case h_5 tuid place has =>
    rw [place] at ok
    rcases ok with ⟨replies, _, hers, announced, held⟩
    cases Option.some.inj (hers.symm.trans has)
    rcases held with ⟨listed, empty, _⟩ | ⟨_, r, mail, right⟩
    · simp only [empty, listed, if_pos]
      exact standing
    · simp only [mail]
      refine standing.onlyCall found rfl ?_
      refine ⟨r, ?_, fun bare => ?_, fun other hers => ?_⟩
      · rw [Call.answered, replies, List.nil_append]
      · cases has.symm.trans bare
      · cases Option.some.inj (hers.symm.trans has)
        exact right
  case h_6 => exact standing

/-! ## The router -/

theorem State.send_cut (cut : s.cut = true) : s.send id r = s := by
  rw [State.send, if_neg]
  intro written
  rw [cut] at written
  cases written.2.1

theorem State.send_eq (reading : s.accept = .reading) (standing : s.cut = false)
    (fits : frameFits (resultFrame id r) = true) :
    s.send id r = { s with down := s.down ++ [resultFrame id r], sent := s.sent ++ [(id, r)] } :=
  if_pos ⟨reading, standing, fits⟩

theorem State.inFlight_send : State.inFlight
    { s with down := s.down ++ [resultFrame id r], sent := s.sent ++ [(id, r)] } =
      s.inFlight ++ [(id, r)] := by
  simp [State.inFlight]

theorem Wire.send (wire : Wire s (some id)) (heard : id ∈ s.heard) (uncalled : id ∉ s.hub.called)
    (unsent : ∀ r, (id, r) ∉ s.sent) (given : (id, r) ∈ s.delivered)
    (fits : s.cut = true ∨ frameFits (resultFrame id r) = true) : Wire (s.send id r) none := by
  rcases Bool.eq_false_or_eq_true s.cut with cut | stands
  · rw [State.send_cut cut]
    exact ⟨wire.nodup, wire.called, wire.sent, wire.once, wire.early, wire.kept,
      fun _ _ => .inr (.inr (.inr cut)), wire.flown, wire.quiet, wire.gone, wire.closed⟩
  · have small : frameFits (resultFrame id r) = true := by
      rcases fits with cut | small
      · rw [cut] at stands
        cases stands
      · exact small
    have reading : s.accept = .reading := by
      cases at_ : s.accept with
      | reading => rfl
      | attaching =>
        rw [wire.quiet at_] at heard
        cases heard
      | detached =>
        rw [wire.gone at_] at stands
        cases stands
    rw [State.send_eq reading stands small]
    constructor
    · exact wire.nodup
    · exact wire.called
    · intro other given_ member
      rcases List.mem_append.mp member with before | new
      · exact wire.sent other given_ before
      · cases List.mem_singleton.mp new
        exact ⟨heard, uncalled, given⟩
    · intro i given_ other member again
      rcases List.mem_append.mp member with before | new
      · rcases List.mem_append.mp again with too | new
        · exact wire.once i given_ other before too
        · cases List.mem_singleton.mp new
          exact absurd before (unsent given_)
      · cases List.mem_singleton.mp new
        rcases List.mem_append.mp again with too | new
        · exact absurd too (unsent other)
        · cases List.mem_singleton.mp new
          rfl
    · exact wire.early
    · exact wire.kept
    · intro other before
      rcases wire.answered other before with is | called | ⟨given_, sent⟩ | cut
      · cases is
        exact .inr (.inr (.inl ⟨r, List.mem_append_right _ (List.mem_singleton_self _)⟩))
      · exact .inr (.inl called)
      · exact .inr (.inr (.inl ⟨given_, List.mem_append_left _ sent⟩))
      · exact .inr (.inr (.inr cut))
    · intro flying member
      rw [State.inFlight_send] at member
      exact List.mem_append.mpr ((List.mem_append.mp member).imp_left (wire.flown flying))
    · exact wire.quiet
    · exact wire.gone
    · intro shut
      rw [(wire.closed shut).1] at stands
      cases stands

/-- Nothing changes but what the hub knows, and what it sends for an id that was announced. -/
theorem Spares.send {base : State} (announced : base.announced = s.announced)
    (cut : base.cut = s.cut) (pending : base.pending = s.pending) (sent : base.sent = s.sent)
    (down : base.down = s.down) (told : id ∈ s.announced) : Spares s (base.send id r) tuid := by
  have flying : base.inFlight = s.inFlight := by rw [State.inFlight, State.inFlight, down]
  rw [State.send]
  split_ifs with written
  · constructor
    · rw [← announced]
      exact Iff.rfl
    · exact fun is => cut.trans is
    · exact congrArg (fun p : Pending => p.map.lookup tuid) pending
    · exact fun r before => List.mem_append_left _ (sent ▸ before)
    · intro given member
      rw [sent] at member
      rcases List.mem_append.mp member with before | new
      · exact .inl before
      · cases List.mem_singleton.mp new
        rw [State.inFlight_send]
        exact .inr ⟨List.mem_append_right _ (List.mem_singleton_self _),
          cut.symm.trans written.2.1, told⟩
    · intro _ _ given flies
      rw [State.inFlight_send, flying]
      exact List.mem_append_left _ flies
  · constructor
    · rw [announced]
    · exact fun is => cut.trans is
    · rw [pending]
    · exact fun r before => sent.symm ▸ before
    · exact fun r before => .inl (sent ▸ before)
    · exact fun _ _ r flies => flying.symm ▸ flies

theorem Standing.router (standing : Standing s) (calls : next.calls = s.calls)
    (pending : next.pending = s.pending) (spares : ∀ tuid, Spares s next tuid)
    (wire : Wire next none) : Standing next := by
  have tuids : next.tuids = s.tuids := by rw [State.tuids, State.tuids, calls]
  constructor
  · rw [tuids]
    exact standing.unique
  · rw [tuids, pending]
    exact standing.listed
  · intro id told
    rw [tuids]
    exact standing.owned id ((spares id).announced.mp told)
  · intro n call found
    rw [calls] at found
    exact (standing.each n call found).spared fun tuid _ => spares tuid
  · exact wire

theorem Wire.erase_early (wire : Wire s but) (heard : id ∈ s.heard) :
    Wire { s with hub := { s.hub with early := s.hub.early.erase id } } but := by
  refine ⟨wire.nodup, fun other called => ?_, wire.sent, wire.once, fun other given found => ?_,
    fun other given member => ?_, wire.answered, wire.flown, wire.quiet, wire.gone, wire.closed⟩
  · rcases wire.called other called with ⟨told, early, fresh⟩
    refine ⟨told, ?_, fresh⟩
    apply Option.eq_none_iff_forall_ne_some.mpr
    intro given found
    rw [(Table.lookup_erase_eq_some.mp found).2] at early
    cases early
  · exact wire.early other given (Table.lookup_erase_eq_some.mp found).2
  · by_cases same : other = id
    · exact .inl (same ▸ heard)
    · rcases wire.kept other given member with told | early
      · exact .inl told
      · apply Or.inr
        rw [AList.lookup_erase_ne same]
        exact early

theorem Wire.hear (wire : Wire s none) (reading : s.accept = .reading) {rest : List Json}
    (head : s.up = frame :: rest) (announces : callId frame = some id) :
    id ∉ s.heard ∧
    State.announced { s with up := rest, heard := s.heard ++ [id] } = s.announced ∧
      Wire { s with up := rest, heard := s.heard ++ [id] } (some id) := by
  have split : s.announced = s.heard ++ id :: rest.filterMap callId := by
    rw [State.announced, head, List.filterMap_cons_some announces]
  have same : State.announced { s with up := rest, heard := s.heard ++ [id] } = s.announced := by
    rw [split, State.announced, List.append_assoc, List.singleton_append]
  have nodup := wire.nodup
  refine ⟨fun before => ?_, same, ?_⟩
  · rw [split] at nodup
    exact (List.nodup_append.mp nodup).2.2 id before id (List.mem_cons_self ..) rfl
  constructor
  · rw [same]
    exact nodup
  · intro other called
    rcases wire.called other called with ⟨told, early, fresh⟩
    exact ⟨List.mem_append_left _ told, early, fresh⟩
  · intro other given sent
    rcases wire.sent other given sent with ⟨told, rest⟩
    exact ⟨List.mem_append_left _ told, rest⟩
  · exact wire.once
  · exact wire.early
  · exact fun other given member => (wire.kept other given member).imp_left
      (List.mem_append_left _)
  · intro other told
    rcases List.mem_append.mp told with before | new
    · rcases wire.answered other before with is | known
      · cases is
      · exact .inr known
    · cases List.mem_singleton.mp new
      exact .inl rfl
  · exact wire.flown
  · intro at_
    rw [reading] at at_
    cases at_
  · exact wire.gone
  · exact wire.closed

/-- What the hub is about to send, if an event makes it send anything. -/
def State.handed (s : State) : Event → Option (String × ToolResult)
  | .deliver id r => if id ∈ s.hub.called then some (id, r) else none
  | .readCall =>
    match s.accept, s.up with
    | .reading, frame :: _ =>
      (callId frame).bind fun id => (s.hub.early.lookup id).map fun r => (id, r)
    | _, _ => none
  | _ => none

/-- What is sent is small enough for a frame. -/
def Fits (s : State) (event : Event) : Prop :=
  ∀ sent ∈ s.handed event, s.cut = true ∨ frameFits (resultFrame sent.1 sent.2) = true

instance (s : State) (event : Event) : Decidable (Fits s event) := by
  unfold Fits
  infer_instance

theorem Standing.readCall (standing : Standing s) (fits : Fits s .readCall) :
    Standing s.readCall := by
  have wire := standing.wire
  rw [State.readCall]
  split
  case h_1 frame rest reading head =>
    split
    case h_1 id announces =>
      rcases wire.hear reading head announces with ⟨unheard, same, heard⟩
      have told : id ∈ s.announced := by
        rw [State.announced, head, List.filterMap_cons_some announces]
        exact List.mem_append_right _ (List.mem_cons_self ..)
      have here : id ∈ s.heard ++ [id] := List.mem_append_right _ (List.mem_singleton_self _)
      rw [State.onCall]
      split
      case h_1 r early =>
        have small : s.cut = true ∨ frameFits (resultFrame id r) = true := by
          apply fits (id, r)
          rw [State.handed, reading, head]
          simp only [announces, Option.bind_some]
          rw [show s.hub.early.lookup id = some r from early]
          rfl
        refine standing.router ?_ ?_ (fun tuid => Spares.send same rfl rfl rfl rfl told) ?_
        · rw [State.send]
          split_ifs <;> rfl
        · rw [State.send]
          split_ifs <;> rfl
        · refine (heard.erase_early here).send here ?_ ?_ (wire.early id r early) small
          · exact fun called => unheard (wire.called id called).1
          · exact fun other sent => unheard (wire.sent id other sent).1
      case h_2 early =>
        refine standing.router rfl rfl (fun tuid => ?_) ?_
        · exact ⟨iff_of_eq (congrArg (tuid ∈ ·) same), fun cut => cut, rfl,
            fun _ sent => sent, fun _ sent => .inl sent, fun _ _ _ flies => flies⟩
        · refine ⟨heard.nodup, fun other called => ?_, fun other given sent => ?_, heard.once,
            heard.early, heard.kept, fun other told => ?_, heard.flown, heard.quiet, heard.gone,
            heard.closed⟩
          · rcases Finset.mem_insert.mp called with same | before
            · rw [same]
              refine ⟨here, early, fun given member => ?_⟩
              rcases wire.kept id given member with told | found
              · exact unheard told
              · exact found early
            · exact heard.called other before
          · rcases heard.sent other given sent with ⟨told, uncalled, is⟩
            refine ⟨told, fun called => ?_, is⟩
            rcases Finset.mem_insert.mp called with same | before
            · exact unheard (same ▸ (wire.sent other given sent).1)
            · exact uncalled before
          · rcases heard.answered other told with is | called | rest
            · cases is
              exact .inr (.inl (Finset.mem_insert_self _ _))
            · exact .inr (.inl (Finset.mem_insert_of_mem called))
            · exact .inr (.inr rest)
    case h_2 ignored =>
      have same : State.announced { s with up := rest } = s.announced := by
        rw [State.announced, State.announced, head, List.filterMap_cons_none ignored]
      refine standing.router rfl rfl (fun tuid => ?_) ?_
      · exact ⟨iff_of_eq (congrArg (tuid ∈ ·) same), id, rfl, fun _ sent => sent,
          fun _ sent => .inl sent, fun _ _ _ flies => flies⟩
      · exact ⟨same ▸ wire.nodup, wire.called, wire.sent, wire.once, wire.early, wire.kept,
          wire.answered, wire.flown, wire.quiet, wire.gone, wire.closed⟩
  case h_2 => exact standing

theorem Standing.deliver (standing : Standing s) (fits : Fits s (.deliver id r)) :
    Standing (s.step (.deliver id r)) := by
  have wire := standing.wire
  have here : (id, r) ∈ s.delivered ++ [(id, r)] :=
    List.mem_append_right _ (List.mem_singleton_self _)
  rw [State.step, State.deliver]
  split_ifs with called
  · rcases wire.called id called with ⟨heard, early, fresh⟩
    have small : s.cut = true ∨ frameFits (resultFrame id r) = true :=
      fits (id, r) (if_pos called)
    refine standing.router ?_ ?_ (fun tuid => Spares.send rfl rfl rfl rfl rfl
      (List.mem_append_left _ heard)) ?_
    · rw [State.send]
      split_ifs <;> rfl
    · rw [State.send]
      split_ifs <;> rfl
    · refine Wire.send ?_ heard ?_ ?_ here small
      · refine ⟨wire.nodup, fun other asked => ?_, fun other given sent => ?_, wire.once,
          fun other given found => ?_, fun other given member => ?_, fun other told => ?_,
          wire.flown, wire.quiet, wire.gone, wire.closed⟩
        · rcases Finset.mem_erase.mp asked with ⟨apart, before⟩
          rcases wire.called other before with ⟨told, absent, undelivered⟩
          refine ⟨told, absent, fun given member => ?_⟩
          rcases List.mem_append.mp member with old | new
          · exact undelivered given old
          · cases List.mem_singleton.mp new
            exact apart rfl
        · rcases wire.sent other given sent with ⟨told, uncalled, is⟩
          exact ⟨told, mt Finset.mem_of_mem_erase uncalled, List.mem_append_left _ is⟩
        · exact List.mem_append_left _ (wire.early other given found)
        · rcases List.mem_append.mp member with old | new
          · exact wire.kept other given old
          · cases List.mem_singleton.mp new
            exact .inl heard
        · by_cases same : other = id
          · exact .inl (congrArg some same.symm)
          · rcases wire.answered other told with is | asked | rest
            · cases is
            · exact .inr (.inl (Finset.mem_erase.mpr ⟨same, asked⟩))
            · exact .inr (.inr rest)
      · exact Finset.notMem_erase id _
      · exact fun other sent => (wire.sent id other sent).2.1 called
  · refine standing.router rfl rfl (fun tuid => ⟨Iff.rfl, fun cut => cut, rfl,
      fun _ sent => sent, fun _ sent => .inl sent, fun _ _ _ flies => flies⟩) ?_
    refine ⟨wire.nodup, fun other asked => ?_, fun other given sent => ?_, wire.once,
      fun other given found => ?_, fun other given member => ?_, wire.answered,
      wire.flown, wire.quiet, wire.gone, wire.closed⟩
    · have apart : other ≠ id := fun same => called (same ▸ asked)
      rcases wire.called other asked with ⟨told, absent, undelivered⟩
      refine ⟨told, (AList.lookup_insert_ne apart).trans absent, fun given member => ?_⟩
      rcases List.mem_append.mp member with old | new
      · exact undelivered given old
      · cases List.mem_singleton.mp new
        exact apart rfl
    · rcases wire.sent other given sent with ⟨told, uncalled, is⟩
      exact ⟨told, uncalled, List.mem_append_left _ is⟩
    · rcases Table.lookup_insert_eq_some.mp found with ⟨same, is⟩ | ⟨_, before⟩
      · rw [same, ← is]
        exact here
      · exact List.mem_append_left _ (wire.early other given before)
    · rcases List.mem_append.mp member with old | new
      · rcases wire.kept other given old with told | found
        · exact .inl told
        · apply Or.inr
          by_cases same : other = id
          · rw [same, AList.lookup_insert]
            exact Option.some_ne_none r
          · rw [AList.lookup_insert_ne same]
            exact found
      · cases List.mem_singleton.mp new
        apply Or.inr
        rw [AList.lookup_insert]
        exact Option.some_ne_none r

/-! ## The receiver -/

namespace State

theorem getElem?_post {calls : List Call} :
    (post calls n r)[m]? =
      calls[m]?.map fun call => if n = m then { call with mail := some r } else call := by
  rw [post, List.getElem?_modify]
  rfl

theorem getElem?_postAll {calls : List Call} {entries : List (Sigma fun _ : String => Nat)} :
    (entries.foldl (fun calls entry => post calls entry.2 r) calls)[m]? =
      calls[m]?.map fun call =>
        if ∃ entry ∈ entries, entry.2 = m then { call with mail := some r } else call := by
  induction entries generalizing calls with
  | nil => simp
  | cons entry entries induction =>
    rw [List.foldl_cons, induction, getElem?_post, Option.map_map]
    apply congrArg (Option.map · calls[m]?)
    funext call
    simp only [Function.comp, List.mem_cons, exists_eq_or_imp]
    by_cases later : ∃ entry ∈ entries, entry.2 = m
    · rw [if_pos later, if_pos (Or.inr later)]
      split_ifs <;> rfl
    · rw [if_neg later]
      by_cases here : entry.2 = m
      · rw [if_pos here, if_pos (Or.inl here)]
      · rw [if_neg here, if_neg (not_or.mpr ⟨here, later⟩)]

end State

theorem tuids_mailed {mailed : Nat → Prop} [DecidablePred mailed]
    (calls : ∀ m, next.calls[m]? = s.calls[m]?.map fun call =>
      if mailed m then { call with mail := some r } else call) : next.tuids = s.tuids := by
  apply List.ext_getElem?
  intro m
  rw [State.tuids, State.tuids, List.getElem?_map, List.getElem?_map, calls, Option.map_map]
  apply congrArg (Option.map · s.calls[m]?)
  funext call
  simp only [Function.comp]
  split_ifs <;> rfl

theorem Standing.mailed (standing : Standing s) {mailed : Nat → Prop} [DecidablePred mailed]
    (calls : ∀ m, next.calls[m]? = s.calls[m]?.map fun call =>
      if mailed m then { call with mail := some r } else call)
    (announced : next.announced = s.announced)
    (listed : ∀ id n, next.pending.map.lookup id = some n → s.pending.map.lookup id = some n)
    (ok : ∀ n call, s.calls[n]? = some call → CallOk s n call →
      CallOk next n (if mailed n then { call with mail := some r } else call))
    (wire : Wire next none) : Standing next := by
  have tuids : next.tuids = s.tuids := tuids_mailed calls
  constructor
  · rw [tuids]
    exact standing.unique
  · intro id n at_
    rw [tuids]
    exact standing.listed id n (listed id n at_)
  · intro id told
    rw [tuids]
    exact standing.owned id (announced ▸ told)
  · intro n call found
    rw [calls] at found
    rcases Option.map_eq_some_iff.mp found with ⟨before, there, same⟩
    exact same ▸ ok n before there (standing.each n before there)
  · exact wire

theorem Standing.tuid_of_listed (standing : Standing s) (found : s.calls[n]? = some call)
    (listed : s.pending.map.lookup id = some n) : call.tuid = some id := by
  have own := State.getElem?_tuids found
  rw [standing.listed id n listed] at own
  exact (Option.some.inj own).symm

theorem Standing.receive (standing : Standing s) : Standing s.receive := by
  have wire := standing.wire
  rw [State.receive]
  split
  case h_1 frame rest opened head =>
    have flying : State.inFlight { s with down := rest } = rest.filterMap resultOf := rfl
    have shut {p : Prop} : s.pending.closed = true → p := by
      intro closed
      rw [opened] at closed
      cases closed
    split
    case h_1 id r carries =>
      have before : s.inFlight = (id, r) :: rest.filterMap resultOf := by
        rw [State.inFlight, head, List.filterMap_cons_some carries]
      have sent : (id, r) ∈ s.sent := by
        apply wire.flown
        rw [before]
        exact List.mem_cons_self ..
      have told : id ∈ s.announced := List.mem_append_left _ (wire.sent id r sent).1
      have flown : ∀ sent ∈ rest.filterMap resultOf, sent ∈ s.sent := by
        intro flies member
        apply wire.flown
        rw [before]
        exact List.mem_cons_of_mem _ member
      have passes : ∀ tuid ≠ id, ∀ r, (tuid, r) ∈ s.inFlight →
          (tuid, r) ∈ rest.filterMap resultOf := by
        intro tuid apart other flies
        rw [before] at flies
        rcases List.mem_cons.mp flies with same | later
        · cases same
          exact absurd rfl apart
        · exact later
      split
      case h_1 n listed =>
        refine standing.mailed (fun m => State.getElem?_post) rfl ?_ ?_ ?_
        · exact fun id m at_ => (Table.lookup_erase_eq_some.mp at_).2
        · intro m call found ok
          by_cases here : n = m
          · rw [if_pos here]
            have has : call.tuid = some id :=
              standing.tuid_of_listed found (here ▸ listed)
            unfold CallOk at ok
            split at ok
            case h_1 => exact absurd told (ok.2.2 id has).1
            case h_2 =>
              rcases ok with ⟨_, tuid, hers, silent, _⟩
              cases Option.some.inj (hers.symm.trans has)
              exact absurd told silent
            case h_3 =>
              rcases ok with ⟨_, tuid, hers, silent⟩
              cases Option.some.inj (hers.symm.trans has)
              exact absurd told silent
            case h_4 place =>
              rcases ok with ⟨replies, tuid, hers, _, _⟩
              cases Option.some.inj (hers.symm.trans has)
              unfold CallOk
              rw [place]
              exact ⟨replies, id, has, told, .inr ⟨AList.lookup_erase _ _, r, rfl, .inl sent⟩⟩
            case h_5 place =>
              unfold CallOk
              rw [place]
              exact ok
            case h_6 => exact ok.elim
          · rw [if_neg here]
            apply ok.spared
            intro tuid has
            have apart : tuid ≠ id := by
              intro same
              apply here
              apply standing.unique n m id (standing.listed id n listed)
              rw [State.getElem?_tuids found, has, same]
            exact ⟨Iff.rfl, fun cut => cut, AList.lookup_erase_ne apart, fun _ sent => sent,
              fun _ sent => .inl sent, fun _ _ => passes tuid apart⟩
        · exact ⟨wire.nodup, wire.called, wire.sent, wire.once, wire.early, wire.kept,
            wire.answered, flown, wire.quiet, wire.gone, shut⟩
      case h_2 unlisted =>
        refine standing.router rfl rfl (fun tuid => ⟨Iff.rfl, fun cut => cut, rfl,
          fun _ sent => sent, fun _ sent => .inl sent, fun m listed => ?_⟩) ?_
        · apply passes
          intro same
          rw [same, unlisted] at listed
          cases listed
        · exact ⟨wire.nodup, wire.called, wire.sent, wire.once, wire.early, wire.kept,
            wire.answered, flown, wire.quiet, wire.gone, shut⟩
    case h_2 ignored =>
      have same : rest.filterMap resultOf = s.inFlight := by
        rw [State.inFlight, head, List.filterMap_cons_none ignored]
      refine standing.router rfl rfl (fun tuid => ⟨Iff.rfl, fun cut => cut, rfl,
        fun _ sent => sent, fun _ sent => .inl sent, fun _ _ r flies => ?_⟩) ?_
      · rw [flying, same]
        exact flies
      exact ⟨wire.nodup, wire.called, wire.sent, wire.once, wire.early, wire.kept,
        wire.answered, fun sent flies => wire.flown sent (same ▸ flies), wire.quiet, wire.gone,
        shut⟩
  case h_2 => exact standing

theorem Standing.endReceive (standing : Standing s) : Standing s.endReceive := by
  have wire := standing.wire
  rw [State.endReceive]
  split_ifs with ends
  · rcases ends with ⟨opened, cut, empty⟩
    have landed : ∀ sent, sent ∉ s.inFlight := by
      intro sent flies
      rw [State.inFlight, empty] at flies
      cases flies
    have mailed {m : Nat} {call : Call} (found : s.calls[m]? = some call) :
        (∃ entry ∈ s.pending.map.entries, entry.2 = m) ↔
          ∃ tuid, call.tuid = some tuid ∧ s.pending.map.lookup tuid = some m := by
      constructor
      · intro listed
        rcases listed with ⟨⟨tuid, n⟩, member, rfl⟩
        have at_ := Table.lookup_eq_some.mpr member
        exact ⟨tuid, standing.tuid_of_listed found at_, at_⟩
      · intro listed
        rcases listed with ⟨tuid, _, at_⟩
        exact ⟨_, Table.lookup_eq_some.mp at_, rfl⟩
    refine standing.mailed (fun m => State.getElem?_postAll) rfl ?_ ?_ ?_
    · intro id m at_
      rw [AList.lookup_empty] at at_
      cases at_
    · intro m call found ok
      unfold CallOk at ok
      split at ok
      case h_1 place =>
        rcases ok with ⟨replies, mail, fresh⟩
        rw [if_neg]
        · unfold CallOk
          rw [place]
          exact ⟨replies, mail, fun tuid has => ⟨(fresh tuid has).1, AList.lookup_empty _⟩⟩
        · rw [mailed found]
          intro listed
          rcases listed with ⟨tuid, has, at_⟩
          rw [(fresh tuid has).2] at at_
          cases at_
      case h_2 place =>
        rcases ok with ⟨replies, tuid, has, silent, _⟩
        unfold CallOk
        split_ifs
        · rw [place]
          exact ⟨replies, tuid, has, silent, .inl cut⟩
        · rw [place]
          exact ⟨replies, tuid, has, silent, .inl cut⟩
      case h_3 place =>
        unfold CallOk
        split_ifs
        · rw [place]
          exact ok
        · rw [place]
          exact ok
      case h_4 place =>
        rcases ok with ⟨replies, tuid, has, told, held⟩
        rcases held with ⟨listed, _, flying⟩ | ⟨unlisted, r, mail, right⟩
        · rw [if_pos ((mailed found).mpr ⟨tuid, has, listed⟩)]
          unfold CallOk
          rw [place]
          refine ⟨replies, tuid, has, told, .inr ⟨AList.lookup_empty _, closedSession, rfl, ?_⟩⟩
          exact .inr ⟨rfl, fun r sent => landed _ (flying r sent), .inl cut⟩
        · rw [if_neg]
          · unfold CallOk
            rw [place]
            exact ⟨replies, tuid, has, told, .inr ⟨AList.lookup_empty _, r, mail, right⟩⟩
          · rw [mailed found]
            intro listed
            rcases listed with ⟨other, hers, at_⟩
            cases Option.some.inj (hers.symm.trans has)
            rw [unlisted] at at_
            cases at_
      case h_5 place =>
        unfold CallOk
        split_ifs
        · rw [place]
          exact ok
        · rw [place]
          exact ok
      case h_6 => exact ok.elim
    · exact ⟨wire.nodup, wire.called, wire.sent, wire.once, wire.early, wire.kept,
        wire.answered, wire.flown, wire.quiet, wire.gone,
        fun _ => ⟨cut, empty, fun id => AList.lookup_empty id⟩⟩
  · exact standing

/-! ## Every run -/

/-- A call has a tool use id that no call before it has, where it has one. -/
def Distinct (s : State) : Event → Prop
  | .request _ params _ => ∀ tuid, toolUseId params = some tuid → some tuid ∉ s.tuids
  | _ => True

def Starts : Event → Prop
  | .request _ _ spawns => spawns = true
  | _ => True

theorem Standing.start : Standing .start := by
  constructor
  · intro m n id found
    cases found
  · intro id n found
    cases found
  · intro id told
    cases told
  · intro n call found
    cases found
  · constructor
    · exact List.nodup_nil
    · exact fun id called => absurd called (Finset.notMem_empty id)
    · exact fun id r sent => absurd sent List.not_mem_nil
    · exact fun id r other sent => absurd sent List.not_mem_nil
    · exact fun id r found => by cases found
    · exact fun id r member => absurd member List.not_mem_nil
    · exact fun id told => absurd told List.not_mem_nil
    · exact fun sent flies => absurd flies List.not_mem_nil
    · exact fun _ => rfl
    · exact fun at_ => by cases at_
    · exact fun shut => by cases shut

theorem Standing.request {rpc : Json} (standing : Standing s)
    (fresh : ∀ tuid, toolUseId params = some tuid → some tuid ∉ s.tuids) :
    Standing { s with calls := s.calls ++ [⟨rpc, params, .started, none, []⟩] } := by
  have tuids : State.tuids { s with calls := s.calls ++ [⟨rpc, params, .started, none, []⟩] } =
      s.tuids ++ [toolUseId params] := by
    rw [State.tuids, List.map_append]
    rfl
  have old {m : Nat} {id : String}
      (found : (s.tuids ++ [toolUseId params])[m]? = some (some id)) :
      s.tuids[m]? = some (some id) ∨ m = s.tuids.length ∧ toolUseId params = some id := by
    rcases Nat.lt_or_ge m s.tuids.length with before | beyond
    · exact .inl ((List.getElem?_append_left before).symm.trans found)
    · rw [List.getElem?_append_right beyond] at found
      have last : m - s.tuids.length = 0 :=
        Nat.lt_one_iff.mp (List.getElem?_eq_some_iff.mp found).1
      rw [last] at found
      exact .inr ⟨by omega, Option.some.inj found⟩
  constructor
  · rw [tuids]
    intro m n id first second
    rcases old first with here | ⟨here, new⟩
    · rcases old second with there | ⟨_, new⟩
      · exact standing.unique m n id here there
      · exact absurd (List.mem_of_getElem? here) (fresh id new)
    · rcases old second with there | ⟨there, _⟩
      · exact absurd (List.mem_of_getElem? there) (fresh id new)
      · exact here.trans there.symm
  · rw [tuids]
    intro id n listed
    have found := standing.listed id n listed
    rw [List.getElem?_append_left (List.getElem?_eq_some_iff.mp found).1]
    exact found
  · rw [tuids]
    exact fun id told => List.mem_append_left _ (standing.owned id told)
  · intro n call found
    rcases Nat.lt_or_ge n s.calls.length with before | beyond
    · rw [List.getElem?_append_left before] at found
      exact standing.each n call found
    · rw [List.getElem?_append_right beyond] at found
      have member := List.mem_of_getElem? found
      cases List.mem_singleton.mp member
      refine ⟨rfl, rfl, fun tuid has => ⟨?_, ?_⟩⟩
      · exact fun told => fresh tuid has (standing.owned tuid told)
      · apply Option.eq_none_iff_forall_ne_some.mpr
        exact fun m listed => fresh tuid has (List.mem_of_getElem? (standing.listed tuid m listed))
  · exact ⟨standing.wire.nodup, standing.wire.called, standing.wire.sent, standing.wire.once,
      standing.wire.early, standing.wire.kept, standing.wire.answered, standing.wire.flown,
      standing.wire.quiet, standing.wire.gone, standing.wire.closed⟩

theorem Standing.connection (standing : Standing s) {accept : Accept} {cut : Bool}
    (falls : s.cut = true → cut = true) (quiet : accept = .attaching → s.accept = .attaching)
    (gone : accept = .detached → cut = true) :
    Standing { s with accept := accept, cut := cut } := by
  have wire := standing.wire
  refine standing.router rfl rfl (fun tuid => ⟨Iff.rfl, falls, rfl, fun _ sent => sent,
    fun _ sent => .inl sent, fun _ _ _ flies => flies⟩) ?_
  refine ⟨wire.nodup, wire.called, wire.sent, wire.once, wire.early, wire.kept,
    fun id told => ?_, wire.flown, fun at_ => wire.quiet (quiet at_), gone, fun shut => ?_⟩
  · rcases wire.answered id told with is | called | sent | lost
    · exact .inl is
    · exact .inr (.inl called)
    · exact .inr (.inr (.inl sent))
    · exact .inr (.inr (.inr (falls lost)))
  · exact ⟨falls (wire.closed shut).1, (wire.closed shut).2⟩

theorem Standing.step (standing : Standing s) {event : Event} (distinct : Distinct s event)
    (starts : Starts event) (fits : Fits s event) : Standing (s.step event) := by
  cases event with
  | request rpc params spawns =>
    have spawned : spawns = true := starts
    rw [State.step, if_pos spawned]
    exact standing.request distinct
  | thread n =>
    rw [State.step]
    split
    case h_1 call found => exact standing.thread found
    case h_2 => exact standing
  | attach =>
    rw [State.step]
    split_ifs
    · exact standing.connection (fun cut => cut) (fun at_ => by cases at_)
        (fun at_ => by cases at_)
    · exact standing
  | readCall => exact standing.readCall fits
  | detach =>
    rw [State.step]
    split_ifs with cut
    · exact standing.connection (fun cut => cut) (fun at_ => by cases at_) fun _ => cut
    · exact standing
  | deliver id r => exact standing.deliver fits
  | receive => exact standing.receive
  | endReceive => exact standing.endReceive
  | cut => exact standing.connection (fun _ => rfl) (fun at_ => at_) fun _ => rfl

theorem Standing.run {events : List Event} (distinct : Along State.step Distinct .start events)
    (starts : ∀ event ∈ events, Starts event) (fits : Along State.step Fits .start events) :
    Standing (run events) := by
  induction events using List.reverseRecOn with
  | nil => exact .start
  | append_singleton past event induction =>
    rw [along_snoc] at distinct fits
    have before := induction distinct.1
      (fun earlier member => starts earlier (List.mem_append_left _ member)) fits.1
    rw [Shim.run, runFrom, List.foldl_append]
    exact before.step distinct.2
      (starts event (List.mem_append_right _ (List.mem_singleton_self _))) fits.2

/-! ## Steps without anything new -/

/-- Nothing more happens until something new comes from outside. -/
def Settled (s : State) : Prop := ∀ event : Event, event.internal = true → s.step event = s

def Blocked (s : State) (n : Nat) : Prop :=
  ∃ call, s.calls[n]? = some call ∧ call.place = .waiting ∧ s.step (.thread n) = s

/-- The most steps a call's thread makes, and what comes of its frame. -/
def Place.work : Place → Nat
  | .started => 6
  | .registered => 5
  | .unsent | .waiting => 1
  | .done | .lost => 0

def Accept.work : Accept → Nat
  | .attaching => 2
  | .reading => 1
  | .detached => 0

namespace State

/-- The most steps that are left to the connection. -/
def linkWork (s : State) : Nat :=
  3 * s.up.length + s.down.length + (if s.pending.closed then 0 else 1) + s.accept.work

def work (s : State) : Nat := (s.calls.map fun call => call.place.work).sum + s.linkWork

theorem sum_set {calls : List Call} {changed : Call} (found : calls[n]? = some call)
    (work : Call → Nat) :
    ((calls.set n changed).map work).sum + work call = (calls.map work).sum + work changed := by
  induction calls generalizing n with
  | nil => cases found
  | cons first calls induction =>
    cases n with
    | zero =>
      cases found
      simp only [List.set_cons_zero, List.map_cons, List.sum_cons]
      omega
    | succ n =>
      have rest := induction (n := n) found
      simp only [List.set_cons_succ, List.map_cons, List.sum_cons]
      omega

theorem work_setCall {changed : Call} (found : s.calls[n]? = some call) :
    (s.setCall n changed).work + call.place.work = s.work + changed.place.work := by
  have sums := @sum_set _ _ _ changed found fun call => call.place.work
  have same : (s.setCall n changed).linkWork = s.linkWork := rfl
  rw [work, work, same]
  simp only [setCall]
  omega

theorem places_mailed {mailed : Nat → Prop} [DecidablePred mailed] {calls : List Call}
    (posted : ∀ m, calls[m]? = s.calls[m]?.map fun call =>
      if mailed m then { call with mail := some r } else call) :
    calls.map (fun call => call.place.work) = s.calls.map fun call => call.place.work := by
  apply List.ext_getElem?
  intro m
  rw [List.getElem?_map, List.getElem?_map, posted, Option.map_map]
  apply congrArg (Option.map · s.calls[m]?)
  funext call
  simp only [Function.comp]
  split_ifs <;> rfl

theorem work_send : (s.send id r).work ≤ s.work + 1 := by
  rw [send]
  split_ifs
  · simp only [work, linkWork, List.length_append, List.length_singleton]
    omega
  · exact Nat.le_succ _

theorem work_onCall : (s.onCall id).work ≤ s.work + 1 := by
  rw [onCall]
  split
  · exact work_send
  · exact Nat.le_succ _

theorem work_readCall (moves : s.readCall ≠ s) : s.readCall.work < s.work := by
  rw [readCall] at moves ⊢
  split
  case h_1 frame rest reading head =>
    have popped : State.work { s with up := rest } + 3 = s.work := by
      simp only [work, linkWork, head, List.length_cons]
      omega
    split
    case h_1 id announces =>
      have bound := @work_onCall { s with up := rest, heard := s.heard ++ [id] } id
      have same : State.work { s with up := rest, heard := s.heard ++ [id] } =
          State.work { s with up := rest } := rfl
      omega
    case h_2 => omega
  case h_2 other =>
    exfalso
    apply moves
    split
    · rename_i reading head
      exact absurd head (other _ _ reading)
    · rfl

theorem work_receive (moves : s.receive ≠ s) : s.receive.work < s.work := by
  rw [receive] at moves ⊢
  split
  case h_1 frame rest opened head =>
    have popped : State.work { s with down := rest } + 1 = s.work := by
      simp only [work, linkWork, head, List.length_cons]
      omega
    split
    case h_1 id r carries =>
      split
      case h_1 n listed =>
        have same := @places_mailed s _ (fun m => n = m) _ _ (fun m => @getElem?_post _ m r s.calls)
        simp only [work, linkWork] at popped ⊢
        rw [same]
        omega
      case h_2 => omega
    case h_2 => omega
  case h_2 other =>
    exfalso
    apply moves
    split
    · rename_i opened head
      exact absurd head (other _ _ opened)
    · rfl

theorem work_endReceive (moves : s.endReceive ≠ s) : s.endReceive.work < s.work := by
  rw [endReceive] at moves ⊢
  split_ifs at moves ⊢ with ends
  · have same := places_mailed (s := s) fun m => @getElem?_postAll m closedSession _
        s.pending.map.entries
    simp only [work, linkWork]
    rw [same, ends.1]
    simp
  · exact absurd rfl moves

theorem work_thread (found : s.calls[n]? = some call) (moves : s.thread n call ≠ s) :
    (s.thread n call).work < s.work := by
  rw [thread] at moves ⊢
  split at moves
  case h_1 place _ =>
    have sums := @work_setCall _ _ _ (call.answered noToolUseId) found
    rw [place] at sums
    simp only [Call.answered, Place.work] at sums ⊢
    omega
  case h_2 tuid place _ =>
    split_ifs at moves ⊢
    · have sums := @work_setCall _ _ _ (call.answered closedSession) found
      rw [place] at sums
      simp only [Call.answered, Place.work] at sums ⊢
      omega
    · have sums := @work_setCall { s with pending :=
          { s.pending with map := s.pending.map.insert tuid n } } _ _
          { call with place := .registered } found
      have same : State.work { s with pending := { s.pending with
        map := s.pending.map.insert tuid n } } = s.work := rfl
      rw [place, same] at sums
      simp only [Place.work] at sums ⊢
      omega
  case h_3 tuid place _ =>
    split_ifs at moves ⊢
    · have sums := @work_setCall { s with up := s.up ++ [callFrame tuid call.params] } _ _
          { call with place := .waiting } found
      rw [place] at sums
      simp only [Place.work] at sums
      have more : State.work { s with up := s.up ++ [callFrame tuid call.params] } =
          s.work + 3 := by
        simp only [work, linkWork, List.length_append, List.length_singleton]
        omega
      omega
    · have sums := @work_setCall _ _ _ { call with place := .unsent } found
      rw [place] at sums
      simp only [Place.work] at sums
      omega
  case h_4 tuid place _ =>
    have sums := @work_setCall { s with pending :=
        { s.pending with map := s.pending.map.erase tuid } } _ _ (call.answered closedSession) found
    have same : State.work { s with pending := { s.pending with
      map := s.pending.map.erase tuid } } = s.work := rfl
    rw [place, same] at sums
    simp only [Call.answered, Place.work] at sums ⊢
    omega
  case h_5 tuid place _ =>
    split at moves
    case h_1 r mail =>
      have sums := @work_setCall _ _ _ (call.answered r) found
      rw [place] at sums
      simp only [Call.answered, Place.work] at sums ⊢
      omega
    case h_2 =>
      split_ifs at moves ⊢
      · exact absurd rfl moves
      · have sums := @work_setCall _ _ _ (call.answered closedSession) found
        rw [place] at sums
        simp only [Call.answered, Place.work] at sums ⊢
        omega
  case h_6 => exact absurd rfl moves

end State

theorem State.work_step {event : Event} (internal : event.internal = true)
    (moves : s.step event ≠ s) : (s.step event).work < s.work := by
  cases event with
  | thread n =>
    rw [State.step] at moves ⊢
    split at moves
    case h_1 call found => exact State.work_thread found moves
    case h_2 => exact absurd rfl moves
  | attach =>
    rw [State.step] at moves ⊢
    split_ifs at moves ⊢ with at_
    · simp only [State.work, State.linkWork, at_, Accept.work]
      omega
    · exact absurd rfl moves
  | readCall => exact State.work_readCall moves
  | detach =>
    rw [State.step] at moves ⊢
    split_ifs at moves ⊢ with cut
    · have left : s.accept ≠ .detached := by
        intro at_
        apply moves
        rw [← at_]
      cases at_ : s.accept with
      | detached => exact absurd at_ left
      | attaching =>
        simp only [State.work, State.linkWork, at_, Accept.work]
        omega
      | reading =>
        simp only [State.work, State.linkWork, at_, Accept.work]
        omega
    · exact absurd rfl moves
  | receive => exact State.work_receive moves
  | endReceive => exact State.work_endReceive moves
  | request _ _ _ => cases internal
  | deliver _ _ => cases internal
  | cut => cases internal

theorem settles (s : State) :
    ∃ events : List Event, (∀ event ∈ events, event.internal = true) ∧
      Settled (runFrom s events) := by
  induction left : s.work using Nat.strong_induction_on generalizing s with
  | _ left_ induction =>
    by_cases settled : Settled s
    · exact ⟨[], fun event member => absurd member List.not_mem_nil, settled⟩
    · unfold Settled at settled
      push Not at settled
      rcases settled with ⟨event, internal, moves⟩
      rcases induction (s.step event).work (left ▸ State.work_step internal moves) _ rfl with
        ⟨events, all, ends⟩
      refine ⟨event :: events, fun other member => ?_, ends⟩
      rcases List.mem_cons.mp member with same | later
      · exact same ▸ internal
      · exact all other later

/-! ## Every call is answered once -/

structure Answered (s : State) : Prop where
  once : ∀ call ∈ s.calls, call.replies.length ≤ 1
  own : ∀ call ∈ s.calls, ∀ tuid r, call.tuid = some tuid → (tuid, r) ∈ s.sent →
    ∀ reply ∈ call.replies, reply = toolReply call.id r
  failed : ∀ call ∈ s.calls, (∀ tuid r, call.tuid = some tuid → (tuid, r) ∉ s.sent) →
    ∀ reply ∈ call.replies, ∃ text, reply = toolReply call.id ⟨text, true⟩
  genuine : ∀ sent ∈ s.sent, sent ∈ s.delivered
  unblocked : s.pending.closed = true → ∀ n, ¬Blocked s n
  apart : ∀ id ∈ s.hub.called, s.hub.early.lookup id = none
  /-- When nothing more happens a call is answered, or waits for a result that nobody has. -/
  settled : Settled s → ∀ call ∈ s.calls, call.replies.length = 1 ∨
    call.place = .waiting ∧ s.cut = false ∧
      ∀ tuid r, call.tuid = some tuid → (tuid, r) ∉ s.delivered
  settles : ∃ events : List Event, (∀ event ∈ events, event.internal = true) ∧
    Settled (runFrom s events)

theorem CallOk.replies (ok : CallOk s n call) :
    call.replies = [] ∨ ∃ r, call.replies = [toolReply call.id r] ∧
      (call.tuid = none → r.isError = true) ∧
        ∀ tuid, call.tuid = some tuid → Right s tuid r := by
  unfold CallOk at ok
  split at ok
  case h_1 => exact .inl ok.1
  case h_2 => exact .inl ok.1
  case h_3 => exact .inl ok.1
  case h_4 => exact .inl ok.1
  case h_5 => exact .inr ok
  case h_6 => exact ok.elim

theorem Standing.waiting (standing : Standing s) (found : s.calls[n]? = some call)
    (place : call.place = .waiting) : call.replies = [] ∧ ∃ tuid, call.tuid = some tuid ∧
      tuid ∈ s.announced ∧ Held s n call tuid := by
  have ok := standing.each n call found
  rw [CallOk, place] at ok
  exact ok

theorem Standing.held_of_blocked (standing : Standing s) (blocked : Blocked s n) :
    ∃ tuid, s.pending.map.lookup tuid = some n := by
  rcases blocked with ⟨call, found, place, stays⟩
  rcases standing.waiting found place with ⟨_, tuid, has, _, held⟩
  rcases held with ⟨listed, _⟩ | ⟨_, r, mail, _⟩
  · exact ⟨tuid, listed⟩
  · exfalso
    have moved : s.step (.thread n) = s.setCall n (call.answered r) := by
      rw [State.step, found]
      simp only [State.thread, place, has, mail]
    have after := @State.getElem?_setCall _ _ n _ (call.answered r) found
    rw [← moved, stays, found, if_pos rfl] at after
    have same := congrArg Call.place (Option.some.inj after)
    rw [place] at same
    cases same

theorem Standing.stays (standing : Standing s) (found : s.calls[n]? = some call)
    (stays : s.step (.thread n) = s) : call.place = .done ∨ call.place = .waiting := by
  have stuck (base : State) {changed : Call} (same : base.calls = s.calls)
      (moved : s.thread n call = base.setCall n changed) : changed = call := by
    have after := @State.getElem?_setCall _ _ n _ changed (same ▸ found)
    rw [if_pos rfl, ← moved] at after
    rw [State.step, found] at stays
    rw [show s.thread n call = s from stays, found] at after
    exact (Option.some.inj after).symm
  have ok := standing.each n call found
  unfold CallOk at ok
  rw [State.thread] at stuck
  split at ok
  case h_1 place =>
    exfalso
    cases has : call.tuid with
    | none =>
      simp only [place, has] at stuck
      have same := congrArg Call.place (stuck _ rfl rfl)
      rw [place] at same
      cases same
    | some tuid =>
      simp only [place, has] at stuck
      split_ifs at stuck
      · have same := congrArg Call.place (stuck _ rfl rfl)
        rw [place] at same
        cases same
      · have same := congrArg Call.place (stuck { s with pending :=
          { s.pending with map := s.pending.map.insert tuid n } } rfl rfl)
        rw [place] at same
        cases same
  case h_2 place =>
    exfalso
    rcases ok with ⟨_, tuid, has, _⟩
    simp only [place, has] at stuck
    split_ifs at stuck
    · have same := congrArg Call.place
        (stuck { s with up := s.up ++ [callFrame tuid call.params] } rfl rfl)
      rw [place] at same
      cases same
    · have same := congrArg Call.place (stuck _ rfl rfl)
      rw [place] at same
      cases same
  case h_3 place =>
    exfalso
    rcases ok with ⟨_, tuid, has, _⟩
    simp only [place, has] at stuck
    have same := congrArg Call.place (stuck { s with pending :=
      { s.pending with map := s.pending.map.erase tuid } } rfl rfl)
    rw [place] at same
    cases same
  case h_4 place => exact .inr place
  case h_5 place => exact .inl place
  case h_6 => exact ok.elim

/-- A call that waits when nothing more happens is one the hub knows of, on a connection that
stands. -/
theorem Standing.asked (standing : Standing s) (settled : Settled s)
    (found : s.calls[n]? = some call) (place : call.place = .waiting) :
    s.cut = false ∧ ∃ tuid, call.tuid = some tuid ∧ tuid ∈ s.hub.called := by
  have wire := standing.wire
  rcases standing.waiting found place with ⟨_, tuid, has, told, held⟩
  rcases standing.held_of_blocked ⟨call, found, place, settled (.thread n) rfl⟩ with ⟨other, at_⟩
  have opened : s.pending.closed = false := by
    apply Bool.eq_false_iff.mpr
    intro shut
    rw [(wire.closed shut).2.2 other] at at_
    cases at_
  have empty : s.down = [] := by
    cases frames : s.down with
    | nil => rfl
    | cons frame rest =>
      exfalso
      have still := congrArg State.down (settled .receive rfl)
      rw [State.step, State.receive, opened, frames] at still
      have short : (frame :: rest).length = rest.length := by
        rw [← still]
        simp only
        split
        · split <;> rfl
        · rfl
      simp at short
  have stands : s.cut = false := by
    apply Bool.eq_false_iff.mpr
    intro cut
    have still := congrArg (fun s : State => s.pending.closed) (settled .endReceive rfl)
    simp only [State.step, State.endReceive] at still
    rw [if_pos ⟨opened, cut, empty⟩, opened] at still
    cases still
  have reading : s.accept = .reading := by
    cases at_ : s.accept with
    | reading => rfl
    | attaching =>
      have still := congrArg State.accept (settled .attach rfl)
      rw [State.step, if_pos at_, at_] at still
      cases still
    | detached =>
      rw [wire.gone at_] at stands
      cases stands
  have heard : tuid ∈ s.heard := by
    cases frames : s.up with
    | nil =>
      rw [State.announced, frames, List.filterMap_nil, List.append_nil] at told
      exact told
    | cons frame rest =>
      exfalso
      have still := congrArg State.up (settled .readCall rfl)
      rw [State.step, State.readCall, reading, frames] at still
      have short : (frame :: rest).length = rest.length := by
        rw [← still]
        simp only
        split
        · rw [State.onCall]
          split
          · rw [State.send]
            split_ifs <;> rfl
          · rfl
        · rfl
      simp at short
  refine ⟨stands, tuid, has, ?_⟩
  rcases wire.answered tuid heard with is | called | ⟨r, sent⟩ | cut
  · cases is
  · exact called
  · exfalso
    have away : s.inFlight = [] := by rw [State.inFlight, empty, List.filterMap_nil]
    rcases held with ⟨_, _, flying⟩ | ⟨unlisted, _⟩
    · have flies := flying r sent
      rw [away] at flies
      cases flies
    · have hers := standing.tuid_of_listed found at_
      cases Option.some.inj (hers.symm.trans has)
      rw [unlisted] at at_
      cases at_
  · rw [cut] at stands
    cases stands

theorem Standing.toAnswered (standing : Standing s) : Answered s := by
  have wire := standing.wire
  have each {call : Call} (member : call ∈ s.calls) : call.replies = [] ∨
      ∃ r, call.replies = [toolReply call.id r] ∧ (call.tuid = none → r.isError = true) ∧
        ∀ tuid, call.tuid = some tuid → Right s tuid r := by
    rcases List.mem_iff_getElem?.mp member with ⟨n, found⟩
    exact (standing.each n call found).replies
  constructor
  · intro call member
    rcases each member with none_ | ⟨r, one, _⟩
    · rw [none_]
      exact Nat.zero_le 1
    · rw [one]
      exact Nat.le_refl 1
  · intro call member tuid r has sent reply replied
    rcases each member with none_ | ⟨given, one, _, right⟩
    · rw [none_] at replied
      cases replied
    · rw [one, List.mem_singleton] at replied
      rcases right tuid has with same | ⟨_, unsent, _⟩
      · rw [replied, wire.once tuid r given sent same]
      · exact absurd sent (unsent r)
  · intro call member unsent reply replied
    rcases each member with none_ | ⟨r, one, bare, right⟩
    · rw [none_] at replied
      cases replied
    · rw [one, List.mem_singleton] at replied
      have error : r.isError = true := by
        cases has : call.tuid with
        | none => exact bare has
        | some tuid =>
          rcases right tuid has with sent | ⟨error, _⟩
          · exact absurd sent (unsent tuid r has)
          · exact error
      exact ⟨r.text, by rw [replied, ← error]⟩
  · exact fun sent member => (wire.sent sent.1 sent.2 member).2.2
  · intro shut n blocked
    rcases standing.held_of_blocked blocked with ⟨tuid, at_⟩
    rw [(wire.closed shut).2.2 tuid] at at_
    cases at_
  · exact fun id called => (wire.called id called).2.1
  · intro settled call member
    rcases List.mem_iff_getElem?.mp member with ⟨n, found⟩
    rcases standing.stays found (settled (.thread n) rfl) with done | waiting
    · have ok := standing.each n call found
      rw [CallOk, done] at ok
      rcases ok with ⟨r, one, _⟩
      exact .inl (by rw [one, List.length_singleton])
    · rcases standing.asked settled found waiting with ⟨stands, tuid, has, called⟩
      refine .inr ⟨waiting, stands, fun other r hers delivered => ?_⟩
      cases Option.some.inj (hers.symm.trans has)
      exact (wire.called tuid called).2.2 r delivered
  · exact settles s

/-- In every run of calls whose ids differ and whose threads start, where each result that is
sent fits in a frame, every call is answered once. -/
theorem answered {events : List Event} (distinct : Along State.step Distinct .start events)
    (starts : ∀ event ∈ events, Starts event) (fits : Along State.step Fits .start events) :
    Answered (run events) :=
  (Standing.run distinct starts fits).toAnswered

/-! ## A result too large for a frame -/

theorem length_le_size (chars : List Char) :
    chars.length ≤ (String.ofList chars).utf8ByteSize := by
  induction chars with
  | nil => exact Nat.zero_le _
  | cons char chars induction =>
    have split : String.ofList (char :: chars) =
        String.singleton char ++ String.ofList chars := by
      apply String.toList_inj.mp
      simp
    have positive := Char.utf8Size_pos char
    rw [split, String.utf8ByteSize_append, String.utf8ByteSize_singleton, List.length_cons]
    omega

theorem length_le_quote (text : String) : text.length ≤ (Json.quote text).utf8ByteSize := by
  have each (char : Char) : 1 ≤ (Json.escape char).length := by
    unfold Json.escape
    split_ifs <;> simp
  have all (chars : List Char) : chars.length ≤ (chars.flatMap Json.escape).length := by
    induction chars with
    | nil => exact Nat.zero_le _
    | cons char chars induction =>
      have here := each char
      rw [List.flatMap_cons, List.length_append, List.length_cons]
      omega
  have bound := length_le_size (text.toList.flatMap Json.escape)
  have more := all text.toList
  rw [String.length_toList] at more
  rw [Json.quote, String.utf8ByteSize_append, String.utf8ByteSize_append]
  omega

theorem length_le_frame : r.text.length ≤ (resultFrame id r).text.utf8ByteSize := by
  have ordered : resultFrame id r = .obj (.cons "result" (.obj (.cons "id" (.str id)
      (.cons "is_error" (.bool r.isError) (.cons "text" (.str r.text) .nil)))) .nil) := by
    have late : ¬"text" < "id" := by decide
    have later : ¬"is_error" < "id" := by decide
    have soon : "is_error" < "text" := by decide
    simp only [resultFrame, Json.object, JsonFields.ofList, List.foldl, JsonFields.set, late,
      later, soon, String.reduceEq, if_false, if_true]
  have bound := length_le_quote r.text
  rw [ordered]
  simp only [Json.text, Json.fieldsText, String.utf8ByteSize_append]
  omega

theorem length_omitted (count : Nat) : ("\n".intercalate
    (List.replicate (count + 1) "[non-text content omitted]")).length = 27 * count + 26 := by
  induction count with
  | zero =>
    rw [List.replicate_one, String.intercalate_singleton]
    decide
  | succ count induction =>
    have text : "[non-text content omitted]".length = 26 := by decide
    have line : "\n".length = 1 := by decide
    rw [List.replicate_succ, String.intercalate_cons_of_ne_nil (by simp), String.length_append,
      induction, String.length_append, text, line]
    omega

theorem resultText_omitted (count : Nat) :
    resultText (.array (List.replicate count (.object []))) =
      "\n".intercalate (List.replicate count "[non-text content omitted]") := by
  have items : (JsonItems.ofList (List.replicate count (Json.object []))).toList =
      List.replicate count (Json.object []) := JsonItems.toList_ofList _
  have text : strField (Json.object []) "text" = none := rfl
  unfold resultText Json.array
  simp only [items, List.map_replicate, text]

def omitted (blocks : Nat) : ToolResult :=
  ⟨resultText (.array (List.replicate blocks (.object []))), false⟩

theorem omitted_unfit {blocks : Nat} (many : MAX_FRAME < 27 * blocks) :
    frameFits (resultFrame id (omitted (blocks + 1))) = false := by
  have long : (omitted (blocks + 1)).text.length = 27 * blocks + 26 := by
    unfold omitted
    rw [resultText_omitted, length_omitted]
  have bound := @length_le_frame id (omitted (blocks + 1))
  rw [frameFits, decide_eq_false_iff_not]
  omega

/-- A call for the id `t`. -/
def oneCall : Json :=
  .object [("name", .str "read"), ("_meta", .object [("claudecode/toolUseId", .str "t")])]

/-- The call is heard, and then its result delivered. -/
def answeredBy (r : ToolResult) : List Event :=
  [.request (.ofNat 1) oneCall true, .thread 0, .thread 0, .attach, .readCall, .deliver "t" r]

/-- The state in which the hub knows of the call. -/
def asked : State where
  calls := [⟨.ofNat 1, oneCall, .waiting, none, []⟩]
  pending := ⟨false, AList.insert "t" 0 ∅⟩
  up := []
  down := []
  cut := false
  accept := .reading
  hub := ⟨{"t"}, ∅⟩
  heard := ["t"]
  sent := []
  delivered := []

theorem run_answeredBy : run (answeredBy r) = asked.step (.deliver "t" r) := by
  have before : runFrom .start [.request (.ofNat 1) oneCall true, .thread 0, .thread 0, .attach,
      .readCall] = asked := by
    apply State.ext
    · decide +kernel
    · apply Pending.ext
      · decide +kernel
      · exact AList.ext (by decide +kernel)
    · decide +kernel
    · decide +kernel
    · decide +kernel
    · decide +kernel
    · apply Hub.ext
      · decide +kernel
      · exact AList.ext (by decide +kernel)
    · decide +kernel
    · decide +kernel
    · decide +kernel
  have split : answeredBy r = [.request (.ofNat 1) oneCall true, .thread 0, .thread 0, .attach,
      .readCall] ++ [.deliver "t" r] := rfl
  rw [run, split, runFrom, List.foldl_append]
  rw [runFrom] at before
  rw [before, List.foldl_cons, List.foldl_nil]

theorem distinct_answeredBy : Along State.step Distinct .start (answeredBy r) :=
  ⟨fun _ _ member => (List.not_mem_nil member).elim, trivial, trivial, trivial, trivial, trivial,
    trivial⟩

theorem starts_answeredBy : ∀ event ∈ answeredBy r, Starts event := by
  intro event member
  simp only [answeredBy, List.mem_cons, List.not_mem_nil, or_false] at member
  rcases member with rfl | rfl | rfl | rfl | rfl | rfl
  · rfl
  all_goals trivial

/-- The small result of the one call is its reply. -/
theorem answered_oneCall : Answered (run (answeredBy ⟨"ok", false⟩ ++ [.receive, .thread 0])) ∧
    (run (answeredBy ⟨"ok", false⟩ ++ [.receive, .thread 0])).calls.map Call.replies =
      [[toolReply (.ofNat 1) ⟨"ok", false⟩]] := by
  refine ⟨answered ?_ ?_ (by decide +kernel), by decide +kernel⟩
  · rw [along_append]
    exact ⟨distinct_answeredBy, trivial, trivial, trivial⟩
  · intro event member
    rcases List.mem_append.mp member with before | last
    · exact starts_answeredBy event before
    · simp only [List.mem_cons, List.not_mem_nil, or_false] at last
      rcases last with rfl | rfl <;> trivial

/-- A result that is too large for a frame is not sent, and nobody hears of it: the call waits
as long as the connection stands. -/
theorem oversize_unanswered :
    Along State.step Distinct .start (answeredBy (omitted 320000)) ∧
      ¬Answered (run (answeredBy (omitted 320000))) := by
  refine ⟨distinct_answeredBy, fun answered => ?_⟩
  have unfit : frameFits (resultFrame "t" (omitted 320000)) = false :=
    @omitted_unfit _ 319999 (by decide)
  have after : run (answeredBy (omitted 320000)) =
      { asked with hub := ⟨∅, ∅⟩, delivered := [("t", omitted 320000)] } := by
    have called : "t" ∈ asked.hub.called := Finset.mem_singleton_self "t"
    rw [run_answeredBy, State.step, State.deliver, if_pos called, State.send, if_neg]
    · rfl
    · intro written
      rw [unfit] at written
      cases written.2.2
  rw [after] at answered
  have settled : Settled { asked with hub := ⟨∅, ∅⟩, delivered := [("t", omitted 320000)] } := by
    intro event internal
    cases event with
    | thread n =>
      cases n with
      | zero =>
        have has : Call.tuid ⟨.ofNat 1, oneCall, .waiting, none, []⟩ = some "t" := by
          decide +kernel
        rw [State.step]
        simp only [asked, List.getElem?_cons_zero, State.thread, has]
        exact if_pos (AList.lookup_insert _)
      | succ n => rfl
    | attach => rfl
    | readCall => rfl
    | detach => rfl
    | receive => rfl
    | endReceive => rfl
    | request _ _ _ => cases internal
    | deliver _ _ => cases internal
    | cut => cases internal
  rcases answered.settled settled _ (List.mem_singleton_self _) with one | ⟨_, _, undelivered⟩
  · cases one
  · exact undelivered "t" (omitted 320000) (by decide +kernel) (List.mem_singleton_self _)

end EclipseOS.Inferenced.Shim
