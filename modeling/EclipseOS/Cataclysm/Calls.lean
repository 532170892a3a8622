import EclipseOS.Cataclysm.Build
import EclipseOS.Foundation.History

/-! # Polls

When a batch is due, and the runs of a publisher: calls that push grid state in, and
polls. -/

namespace EclipseOS.Cataclysm

open Foundation

/-- Adds an emulator's batch, which ends in `commit`. -/
structure Batch where
  ops : List Op
  seq : Nat
  structural : Bool
  /-- The batch announces an echo-off raise. -/
  urgent : Bool
  deriving DecidableEq

/-- `u64::saturating_add`. -/
def saturatingAdd (a b : Nat) : Nat := min (a + b) U64_MAX

namespace Publisher

variable (p : Publisher)

def finish (out : Out) (now : Nat) (urgent : Bool) : Publisher × Option Batch :=
  ({ p with lastPublish := some now, seq := p.seq + 1 },
    some ⟨out.ops ++ [.commit], p.seq + 1, out.structural, urgent⟩)

/-- Output since the last poll counts as seen now. -/
def noteOutput (now : Nat) : Publisher :=
  if p.outputSeen then { p with outputSeen := false, lastOutput := now } else p

/-- The raise still stands: echo has not been on for the grace. -/
def standing (now : Nat) : Bool :=
  p.raised && match p.echoOnSince with
    | some t => now - t < p.cfg.downgradeGraceNs
    | none => true

/-- The raise is dropped, where there is one. -/
def downgrade : Publisher :=
  if p.raised then
    { p with raised := false, echoOnSince := none, boundary := true, dirty := true }
  else p

def since (now : Nat) : Nat := p.lastPublish.elim U64_MAX (now - ·)

def idle (now : Nat) : Bool := p.dirty ∧ p.cfg.idleNs ≤ now - p.lastOutput

def due (now : Nat) : Bool :=
  ((p.boundary ∨ p.idle now) ∧ p.cfg.boundaryIntervalNs ≤ p.since now) ∨
    (p.dirty ∧ p.cfg.minIntervalNs ≤ p.since now)

/-- A poll that is due: the diff, where there is one. -/
def publish (now : Nat) : Publisher × Option Batch :=
  let (built, out) := { p with boundary := false, dirty := false }.build
  if out.ops = [] then (built, none) else built.finish out now false

def poll (now : Nat) : Publisher × Option Batch :=
  if p.raiseAnnounce then
    let (raise, out) := { p with raiseAnnounce := false }.buildRaise
    raise.finish out now true
  else
    let p := p.noteOutput now
    if p.standing now then (p, none)
    else
      let p := p.downgrade
      if p.due now then p.publish now else (p, none)

def nextDeadline : Nat :=
  if p.raiseAnnounce then 0
  else if p.raised then
    p.echoOnSince.elim U64_MAX (saturatingAdd · p.cfg.downgradeGraceNs)
  else if p.outputSeen then 0
  else
    let lp := p.lastPublish.getD 0
    let boundaryAt := saturatingAdd lp p.cfg.boundaryIntervalNs
    let d := if p.boundary then min U64_MAX (if p.lastPublish = none then 0 else boundaryAt)
      else U64_MAX
    if p.dirty then
      min (min d (saturatingAdd lp p.cfg.minIntervalNs))
        (max (saturatingAdd p.lastOutput p.cfg.idleNs) boundaryAt)
    else d

end Publisher

inductive Call where
  | resize (rows cols : Nat)
  | setLine (row : Nat) (utf8 : List Chunk)
  | scroll (n : Nat)
  | setCursor (row col : Nat)
  | setAltScreen (on : Bool)
  | setEcho (on : Bool)
  | osc133 (payload : List UInt8)
  | poll

/-- A call at an instant, and the batch it comes with. -/
def Publisher.call (p : Publisher) (call : Call) (now : Nat) : Publisher × Option Batch :=
  match call with
  | .resize rows cols => (p.resize rows cols, none)
  | .setLine row utf8 => (p.setLine row utf8, none)
  | .scroll n => (p.scroll n, none)
  | .setCursor row col => (p.setCursor row col, none)
  | .setAltScreen on => (p.setAltScreen on, none)
  | .setEcho on => (p.setEcho on now, none)
  | .osc133 payload => (p.osc133 payload now, none)
  | .poll => p.poll now

/-- A publisher of a grid that is accepted, after calls at their instants. -/
def Publisher.after (p : Publisher) (calls : List (Call × Nat)) : Publisher :=
  calls.foldl (fun p call => (p.call call.1 call.2).1) p

end EclipseOS.Cataclysm

/-! ## Calls

What each call does to the state of the rate policy. -/

namespace EclipseOS.Cataclysm

open Foundation

/-- A call that is neither an echo change nor a poll. -/
def Call.isInput : Call → Bool
  | .setEcho _ | .poll => false
  | _ => true

def oscKind (payload : List UInt8) : Option UInt8 :=
  (if Publisher.OSC.isPrefixOf payload then payload.drop Publisher.OSC.length
    else payload).head?

/-- What the rate policy takes for a boundary. -/
def Call.isBoundary : Call → Bool
  | .resize _ _ | .setAltScreen _ => true
  | .osc133 payload =>
    oscKind payload = some 65 ∨ oscKind payload = some 67 ∨ oscKind payload = some 68
  | _ => false

/-- What the rate policy knows apart from its flags. -/
structure Policy where
  cfg : Config
  echo : Bool
  raised : Bool
  raiseAnnounce : Bool
  echoOnSince : Option Nat
  lastPublish : Option Nat
  lastOutput : Nat

namespace Publisher

def policy (p : Publisher) : Policy :=
  ⟨p.cfg, p.echo, p.raised, p.raiseAnnounce, p.echoOnSince, p.lastPublish, p.lastOutput⟩

/-- What an input call does to the policy: it marks what it changes. -/
structure Marks (p q : Publisher) (boundary : Bool) : Prop where
  policy : q.policy = p.policy
  boundary : q.boundary = true → p.boundary = true ∨ boundary = true
  kept : p.boundary = true → q.boundary = true
  dirty : q.dirty = true ∨ q = { p with outputSeen := q.outputSeen }
  seen : p.outputSeen = true → q.outputSeen = true

variable {p q r : Publisher} {boundary : Bool}

theorem Marks.same : Marks p p boundary := ⟨rfl, .inl, id, .inr rfl, id⟩

theorem Marks.trans (first : Marks p q boundary) (second : Marks q r boundary)
    (dirty : q.dirty = true → r.dirty = true) : Marks p r boundary where
  policy := second.policy.trans first.policy
  boundary marked := (second.boundary marked).elim first.boundary .inr
  kept marked := second.kept (first.kept marked)
  dirty := by
    rcases first.dirty with marked | same
    · exact .inl (dirty marked)
    · rcases second.dirty with marked | same'
      · exact .inl marked
      · rw [same] at same'
        exact .inr same'
  seen output := second.seen (first.seen output)

theorem setScreen_policy (screen : Screen) : (p.setScreen screen).policy = p.policy := by
  unfold setScreen
  split <;> rfl

theorem setScreen_boundary (screen : Screen) : (p.setScreen screen).boundary = p.boundary := by
  unfold setScreen
  split <;> rfl

theorem resize_marks (rows cols : Nat) : Marks p (p.resize rows cols) true := by
  unfold resize
  split_ifs
  · exact .same
  · exact ⟨rfl, fun _ => .inr rfl, fun _ => rfl, .inl rfl, fun _ => rfl⟩
  · exact .same

theorem setLine_marks (row : Nat) (utf8 : List Chunk) :
    Marks p (p.setLine row utf8) boundary := by
  unfold setLine
  dsimp only
  split_ifs
  · exact .same
  · refine ⟨setScreen_policy _, fun marked => .inl ?_, fun marked => ?_, .inl rfl, fun _ => rfl⟩
    · exact (setScreen_boundary _).symm.trans marked
    · exact (setScreen_boundary _).trans marked
  · exact ⟨rfl, .inl, id, .inr rfl, fun _ => rfl⟩

theorem scroll_marks (n : Nat) : Marks p (p.scroll n) boundary := by
  unfold scroll
  dsimp only
  split_ifs
  · exact .same
  all_goals
    refine ⟨setScreen_policy _, fun marked => .inl ?_, fun marked => ?_, .inl rfl, fun _ => rfl⟩
    · exact (setScreen_boundary _).symm.trans marked
    · exact (setScreen_boundary _).trans marked

theorem setCursor_marks (row col : Nat) : Marks p (p.setCursor row col) boundary := by
  unfold setCursor
  split_ifs
  · exact .same
  · exact ⟨rfl, .inl, id, .inl rfl, id⟩
  · exact .same

theorem setAltScreen_marks (on : Bool) : Marks p (p.setAltScreen on) true := by
  unfold setAltScreen
  split_ifs
  · exact ⟨rfl, fun _ => .inr rfl, fun _ => rfl, .inl rfl, fun _ => rfl⟩
  · exact .same

theorem markPrompt_marks (line : Nat) : Marks p (p.markPrompt line) true := by
  unfold markPrompt
  dsimp only
  split_ifs
  · exact ⟨rfl, fun _ => .inr rfl, fun _ => rfl, .inl rfl, id⟩
  · split <;> exact ⟨rfl, fun _ => .inr rfl, fun _ => rfl, .inl rfl, id⟩

theorem markInput_marks (line : Nat) : Marks p (p.markInput line) boundary := by
  unfold markInput
  split_ifs
  · exact ⟨rfl, .inl, id, .inl rfl, id⟩
  · exact .same

theorem markCommand_marks (line now : Nat) : Marks p (p.markCommand line now) true := by
  have opened : Marks p
      (if p.blocks.getLast?.any Block.isPrompt then p else p.markPrompt line) true := by
    split_ifs
    · exact .same
    · exact markPrompt_marks line
  unfold markCommand
  dsimp only
  generalize (if p.blocks.getLast?.any Block.isPrompt then p else p.markPrompt line) = q at *
  split_ifs
  · refine opened.trans ⟨rfl, fun _ => .inr rfl, fun _ => rfl, .inl rfl, id⟩ fun _ => rfl
  · exact opened

theorem markEnd_marks (line now : Nat) (rest : List UInt8) :
    Marks p (p.markEnd line now rest) true := by
  unfold markEnd
  split_ifs
  · exact ⟨rfl, fun _ => .inr rfl, fun _ => rfl, .inl rfl, id⟩
  · exact ⟨rfl, fun _ => .inr rfl, fun _ => rfl, .inl rfl, id⟩
  · exact .same

theorem osc133_marks (payload : List UInt8) (now : Nat) :
    Marks p (p.osc133 payload now) (Call.osc133 payload).isBoundary := by
  unfold osc133
  split
  · exact .same
  · rename_i kind rest split
    have kindOf : oscKind payload = some kind := by rw [oscKind, split, List.head?_cons]
    dsimp only
    split_ifs with ignored isA isB isC isD
    · exact .same
    · have boundary : (Call.osc133 payload).isBoundary = true := by
        simp [Call.isBoundary, kindOf, isA]
      exact boundary ▸ markPrompt_marks _
    · exact markInput_marks _
    · have boundary : (Call.osc133 payload).isBoundary = true := by
        simp [Call.isBoundary, kindOf, isC]
      exact boundary ▸ markCommand_marks _ _
    · have boundary : (Call.osc133 payload).isBoundary = true := by
        simp [Call.isBoundary, kindOf, isD]
      exact boundary ▸ markEnd_marks _ _ _
    · exact .same

theorem input_marks {call : Call} (isInput : call.isInput = true) (now : Nat) :
    Marks p (p.call call now).1 call.isBoundary ∧ (p.call call now).2 = none := by
  cases call with
  | resize rows cols => exact ⟨resize_marks rows cols, rfl⟩
  | setLine row utf8 => exact ⟨setLine_marks row utf8, rfl⟩
  | scroll n => exact ⟨scroll_marks n, rfl⟩
  | setCursor row col => exact ⟨setCursor_marks row col, rfl⟩
  | setAltScreen on => exact ⟨setAltScreen_marks on, rfl⟩
  | setEcho on => cases isInput
  | osc133 payload => exact ⟨osc133_marks payload now, rfl⟩
  | poll => cases isInput

/-- The calls that the idle time counts from. -/
def outputs (p : Publisher) : Call → Bool
  | .resize rows cols => fitsGrid rows cols ∧ ¬(rows = p.rows ∧ cols = p.cols)
  | .setLine row _ => row < p.rows
  | .scroll n => n ≠ 0
  | .setAltScreen on => p.alt ≠ on
  | _ => false

theorem outputs_seen {call : Call} (outputs : p.outputs call = true) (now : Nat) :
    (p.call call now).1.outputSeen = true := by
  cases call with
  | resize rows cols =>
    rcases of_decide_eq_true outputs with ⟨fits, other⟩
    change (p.resize rows cols).outputSeen = true
    rw [resize, if_neg (not_not_intro fits), if_neg other]
  | setLine row utf8 =>
    change (p.setLine row utf8).outputSeen = true
    rw [setLine, if_neg (Nat.not_le.mpr (of_decide_eq_true outputs))]
  | scroll n =>
    change (p.scroll n).outputSeen = true
    rw [scroll, if_neg (of_decide_eq_true outputs)]
  | setAltScreen on =>
    change (p.setAltScreen on).outputSeen = true
    rw [setAltScreen, if_pos (of_decide_eq_true outputs)]
  | _ => cases outputs

/-- What a poll does: it announces, it withholds, it waits, or it publishes. -/
inductive Polled (p : Publisher) (now : Nat) : Publisher × Option Batch → Prop
  | announced (announce : p.raiseAnnounce = true) :
      Polled p now
        (({ p with raiseAnnounce := false }.buildRaise.1).finish
          { p with raiseAnnounce := false }.buildRaise.2 now true)
  | withheld (quiet : p.raiseAnnounce = false) (stands : (p.noteOutput now).standing now = true) :
      Polled p now (p.noteOutput now, none)
  | waits (quiet : p.raiseAnnounce = false) (fell : (p.noteOutput now).standing now = false)
      (early : (p.noteOutput now).downgrade.due now = false) :
      Polled p now ((p.noteOutput now).downgrade, none)
  | published (quiet : p.raiseAnnounce = false)
      (fell : (p.noteOutput now).standing now = false)
      (due : (p.noteOutput now).downgrade.due now = true) :
      Polled p now ((p.noteOutput now).downgrade.publish now)

theorem poll_polled (p : Publisher) (now : Nat) : Polled p now (p.poll now) := by
  unfold poll
  dsimp only
  split_ifs with announce stands due
  · exact .announced announce
  · exact .withheld (Bool.eq_false_iff.mpr announce) stands
  · exact .published (Bool.eq_false_iff.mpr announce) (Bool.eq_false_iff.mpr stands) due
  · exact .waits (Bool.eq_false_iff.mpr announce) (Bool.eq_false_iff.mpr stands)
      (Bool.eq_false_iff.mpr due)

theorem noteOutput_policy (p : Publisher) (now : Nat) :
    (p.noteOutput now).policy =
      { p.policy with lastOutput := if p.outputSeen then now else p.lastOutput } := by
  cases seen : p.outputSeen <;> simp [noteOutput, policy, seen]

theorem downgrade_policy (p : Publisher) :
    p.downgrade.policy =
      { p.policy with
        raised := false, echoOnSince := if p.raised then none else p.echoOnSince } := by
  cases raised : p.raised <;> simp [downgrade, policy, raised]

theorem standing_eq_false {p : Publisher} {now : Nat} (fell : p.standing now = false)
    (raised : p.raised = true) :
    ∃ t, p.echoOnSince = some t ∧ p.cfg.downgradeGraceNs ≤ now - t := by
  unfold standing at fell
  rw [raised, Bool.true_and] at fell
  split at fell
  · rename_i t since
    exact ⟨t, since, Nat.le_of_not_lt (of_decide_eq_false fell)⟩
  · cases fell

theorem policy_of_source (same : q.source = r.source) : q.policy = r.policy := by
  have projected := congrArg policy same
  exact projected

theorem flags_of_source (same : q.source = r.source) :
    q.boundary = r.boundary ∧ q.dirty = r.dirty ∧ q.outputSeen = r.outputSeen := by
  have projected := congrArg (fun s : Publisher => (s.boundary, s.dirty, s.outputSeen)) same
  rcases Prod.mk.inj projected with ⟨boundary, rest⟩
  rcases Prod.mk.inj rest with ⟨dirty, output⟩
  exact ⟨boundary, dirty, output⟩

theorem announce_policy (p : Publisher) (now : Nat) (out : Out) :
    ((p.buildRaise.1).finish out now true).1.policy = { p.policy with lastPublish := some now } := by
  have kept := policy_of_source p.buildRaise_source
  exact congrArg (fun policy : Policy => { policy with lastPublish := some now }) kept

/-- What a due poll leaves of the policy, with or without a batch. -/
structure Publishes (p : Publisher) (now : Nat) (q : Publisher) (batch : Option Batch) :
    Prop where
  policy : q.policy = { p.policy with lastPublish := if batch = none then p.lastPublish else some now }
  flags : q.boundary = false ∧ q.dirty = false ∧ q.outputSeen = p.outputSeen
  quiet : ∀ b ∈ batch, b.urgent = false

theorem publish_publishes (p : Publisher) (now : Nat) :
    Publishes p now (p.publish now).1 (p.publish now).2 := by
  have kept := build_source { p with boundary := false, dirty := false }
  have policy := policy_of_source kept
  have flags := flags_of_source kept
  unfold publish
  dsimp only
  generalize build { p with boundary := false, dirty := false } = built at *
  split_ifs
  · exact ⟨policy, flags, fun _ => nofun⟩
  · refine ⟨?_, flags, ?_⟩
    · exact congrArg (fun policy : Policy => { policy with lastPublish := some now }) policy
    · rintro _ ⟨⟩
      rfl

theorem downgrade_raised (p : Publisher) : p.downgrade.raised = false :=
  congrArg Policy.raised p.downgrade_policy

theorem publish_raised (p : Publisher) (now : Nat) : (p.publish now).1.raised = p.raised := by
  have policy := (publish_publishes p now).policy
  generalize (p.publish now).1 = q at policy
  exact congrArg Policy.raised policy

end Publisher

end EclipseOS.Cataclysm
