import EclipseOS.Cataclysm.Echo
import EclipseOS.Cataclysm.Shown

/-! # Announcements

Turning echo off is announced by the very next poll, unless an announcement made before
stands. -/

namespace EclipseOS.Cataclysm

open Foundation

namespace Publisher

/-- An announcement made before stands: no poll since found echo on for the grace. -/
def Stands (p : Publisher) (past : List (Call × Nat)) : Prop :=
  ∃ before s after, past = before ++ (.poll, s) :: after ∧
    (∃ batch ∈ ((p.after before).poll s).2, Announces batch) ∧
      ∀ middle t rest, after = middle ++ (.poll, t) :: rest →
        (echoAfter (before ++ (.poll, s) :: middle)).steady p.cfg.downgradeGraceNs t = false

variable {p : Publisher} {past : List (Call × Nat)}

theorem Stands.kept {call : Call × Nat} (stands : p.Stands past)
    (unsteady : call.1 = .poll →
      (echoAfter past).steady p.cfg.downgradeGraceNs call.2 = false) :
    p.Stands (past ++ [call]) := by
  rcases stands with ⟨before, s, after, rfl, announced, since⟩
  refine ⟨before, s, after ++ [call], by simp, announced, ?_⟩
  intro middle t rest split
  rcases snoc_eq_split.mp split with ⟨rfl, last, -⟩ | ⟨inner, rfl, earlier⟩
  · rw [← last] at unsteady
    exact unsteady rfl
  · exact since middle t inner earlier

theorem Follows.unsteady {grace now : Nat} (follows : Follows grace past p.policy)
    (stands : p.standing now = true) :
    (echoAfter past).steady grace now = false := by
  rw [standing, Bool.and_eq_true] at stands
  rcases stands with ⟨raised, held⟩
  rcases follows.raised raised with ⟨turned, since⟩
  have since : p.echoOnSince = (echoAfter past).since := since
  rw [Bool.eq_false_iff]
  intro steady
  rcases (Echo.steady_since turned).mp steady with ⟨t, on, long⟩
  rw [since, on] at held
  have short : now - t < p.cfg.downgradeGraceNs := of_decide_eq_true held
  exact absurd (Nat.lt_of_lt_of_le short (follows.cfg ▸ long)) (Nat.lt_irrefl _)

theorem setEcho_raise (on : Bool) (t : Nat) :
    (p.setEcho on t).raised = (p.raised || !on) ∧
      (p.setEcho on t).raiseAnnounce = (p.raiseAnnounce || (!on && !p.raised)) := by
  cases on <;> cases raised : p.raised <;> cases echo : p.echo <;> simp [setEcho, raised, echo]

theorem after_stands (start : Follows p.cfg.downgradeGraceNs [] p.policy)
    (calm : p.raised = false) (ordered : Ordered past)
    (raised : (p.after past).raised = true) (quiet : (p.after past).raiseAnnounce = false) :
    p.Stands past := by
  induction past using List.reverseRecOn with
  | nil => exact nomatch calm.symm.trans raised
  | append_singleton past call induction =>
    rcases ordered_snoc.mp ordered with ⟨earlier, -⟩
    have follows := after_follows start earlier
    rw [after_snoc] at raised quiet
    rcases call with ⟨call, t⟩
    cases input : call.isInput with
    | true =>
      have same := (input_marks (p := p.after past) input t).1.policy
      have stands := induction earlier ((congrArg Policy.raised same).symm.trans raised)
        ((congrArg Policy.raiseAnnounce same).symm.trans quiet)
      refine stands.kept ?_
      rintro rfl
      cases input
    | false =>
      cases call with
      | setEcho on =>
        rcases setEcho_raise (p := p.after past) on t with ⟨raises, announces⟩
        have noted := announces.symm.trans quiet
        rcases Bool.or_eq_false_iff.mp noted with ⟨before, unraised⟩
        have was : (p.after past).raised = true := by
          have raised := raises.symm.trans raised
          revert raised unraised
          cases on <;> simp
        exact (induction earlier was before).kept nofun
      | poll =>
        have polled := poll_polled (p.after past) t
        change ((p.after past).poll t).1.raised = true at raised
        generalize result : (p.after past).poll t = polled' at polled raised
        cases polled with
        | announced announce =>
          refine ⟨past, t, [], rfl, ?_, fun middle => by cases middle <;> nofun⟩
          rw [result]
          exact ⟨_, rfl, buildRaise_announces _ t _ rfl⟩
        | withheld calm' stands =>
          have noted := noteOutput_policy (p.after past) t
          have was : (p.after past).raised = true :=
            (congrArg Policy.raised noted).symm.trans raised
          refine (induction earlier was calm').kept fun _ => ?_
          exact (follows.noteOutput t).unsteady stands
        | waits calm' fell early =>
          exact nomatch (downgrade_raised _).symm.trans raised
        | published calm' fell due =>
          rw [publish_raised, downgrade_raised] at raised
          cases raised
      | _ => cases input

theorem after_announce {before between : List (Call × Nat)}
    (unpolled : ∀ call ∈ between, call.1 ≠ .poll) (was : (p.after before).raised = true) :
    (p.after (before ++ between)).raised = true ∧
      (p.after (before ++ between)).raiseAnnounce = (p.after before).raiseAnnounce := by
  induction between using List.reverseRecOn with
  | nil => simpa using was
  | append_singleton between call induction =>
    rcases induction fun other member => unpolled other (List.mem_append_left _ member) with
      ⟨raised, same⟩
    have notPoll := unpolled call (by simp)
    rw [← List.append_assoc, after_snoc]
    generalize p.after (before ++ between) = q at *
    rcases call with ⟨call, t⟩
    cases input : call.isInput with
    | true =>
      have kept := (input_marks (p := q) input t).1.policy
      exact ⟨(congrArg Policy.raised kept).trans raised,
        (congrArg Policy.raiseAnnounce kept).trans same⟩
    | false =>
      cases call with
      | setEcho on =>
        rcases setEcho_raise (p := q) on t with ⟨raises, announces⟩
        refine ⟨raises.trans ?_, announces.trans ?_⟩
        · rw [raised, Bool.true_or]
        · simpa [raised] using same
      | poll => exact absurd rfl notPoll
      | _ => cases input

/-- The first poll after echo went off announces it, unless an announcement stands; then it
announces nothing. -/
theorem next_poll (start : Follows p.cfg.downgradeGraceNs [] p.policy)
    (calm : p.raised = false) {before between : List (Call × Nat)} {t now : Nat}
    (ordered : Ordered before) (unpolled : ∀ call ∈ between, call.1 ≠ .poll) :
    (∃ batch ∈ ((p.after (before ++ (.setEcho false, t) :: between)).poll now).2,
        Announces batch) ∨
      p.Stands before ∧
        ∀ batch ∈ ((p.after (before ++ (.setEcho false, t) :: between)).poll now).2,
          batch.urgent = false := by
  have split : before ++ (.setEcho false, t) :: between =
      (before ++ [(.setEcho false, t)]) ++ between := by simp
  rw [split]
  rcases setEcho_raise (p := p.after before) false t with ⟨raises, announces⟩
  have raised : (p.after (before ++ [(.setEcho false, t)])).raised = true := by
    rw [after_snoc]
    exact raises.trans (by simp)
  have announce := (after_announce unpolled raised).2
  rw [after_snoc] at announce
  have announce := announce.trans announces
  have polled := poll_polled (p.after ((before ++ [(.setEcho false, t)]) ++ between)) now
  generalize p.after ((before ++ [(.setEcho false, t)]) ++ between) = q at *
  cases announced : q.raiseAnnounce with
  | true =>
    generalize q.poll now = result at *
    cases polled with
    | announced _ => exact .inl ⟨_, rfl, buildRaise_announces _ now _ rfl⟩
    | withheld quiet _ => exact nomatch quiet.symm.trans announced
    | waits quiet _ _ => exact nomatch quiet.symm.trans announced
    | published quiet _ _ => exact nomatch quiet.symm.trans announced
  | false =>
    have noted := announce.symm.trans announced
    simp only [Bool.not_false, Bool.true_and, Bool.or_eq_false_iff, Bool.not_eq_false'] at noted
    refine .inr ⟨after_stands start calm ordered noted.2 noted.1, ?_⟩
    generalize q.poll now = result at *
    cases polled with
    | announced raised => exact nomatch announced.symm.trans raised
    | withheld _ _ => exact fun _ => nofun
    | waits _ _ _ => exact fun _ => nofun
    | published _ _ _ => exact (publish_publishes _ now).quiet

end Publisher

end EclipseOS.Cataclysm

/-! ## Nothing is dropped

A publisher without a pending change has published what it holds, and polling it at its
deadlines brings it there. -/

namespace EclipseOS.Cataclysm

open Foundation

namespace Publisher

variable {p q : Publisher} {past : List (Call × Nat)} {now : Nat}

structure Flagged (p : Publisher) : Prop where
  boundary : p.boundary = true → p.dirty = true
  inStep : p.dirty = false → p.raised = false → InStep p

theorem InStep.outputSeen (inStep : InStep p) (seen : Bool) :
    InStep { p with outputSeen := seen } :=
  { inStep with }

theorem InStep.noteOutput (inStep : InStep p) (now : Nat) : InStep (p.noteOutput now) := by
  unfold Publisher.noteOutput
  split
  · exact { inStep with }
  · exact inStep

theorem InStep.finish (inStep : InStep p) (out : Out) (now : Nat) (urgent : Bool) :
    InStep (p.finish out now urgent).1 :=
  { inStep with }

theorem new_flagged {cfg : Config} {rows cols : Nat} (start : new cfg rows cols = some p) :
    Flagged p := by
  unfold new at start
  split_ifs at start
  cases start
  exact ⟨fun _ => rfl, nofun⟩

theorem Flagged.marks {boundary : Bool} (flagged : Flagged p) (marks : Marks p q boundary) :
    Flagged q := by
  have raised : q.raised = p.raised := congrArg Policy.raised marks.policy
  rcases marks.dirty with dirty | same
  · exact ⟨fun _ => dirty, fun clean => nomatch dirty.symm.trans clean⟩
  · rw [same]
    exact ⟨flagged.boundary, fun clean calm => (flagged.inStep clean calm).outputSeen _⟩

theorem Flagged.noteOutput (flagged : Flagged p) (now : Nat) : Flagged (p.noteOutput now) := by
  unfold Publisher.noteOutput
  split
  · exact ⟨flagged.boundary, fun clean calm => { flagged.inStep clean calm with }⟩
  · exact flagged

theorem Flagged.downgrade (flagged : Flagged p) : Flagged p.downgrade := by
  unfold Publisher.downgrade
  split
  · exact ⟨fun _ => rfl, nofun⟩
  · exact flagged

theorem Flagged.setEcho (flagged : Flagged p) (echo : p.raised = false → p.echo = true)
    (on : Bool) (t : Nat) : Flagged (p.setEcho on t) := by
  cases on with
  | false =>
    have raised := (setEcho_raise (p := p) false t).1
    have marks : (p.setEcho false t).boundary = p.boundary ∧
        (p.setEcho false t).dirty = p.dirty := by
      cases was : p.raised <;> simp [Publisher.setEcho, was]
    refine ⟨fun marked => ?_, fun _ calm => ?_⟩
    · exact marks.2.trans (flagged.boundary (marks.1.symm.trans marked))
    · rw [raised] at calm
      simp at calm
  | true =>
    cases wasOn : p.echo with
    | true =>
      have same : p.setEcho true t = p := by simp [Publisher.setEcho, wasOn]
      rw [same]
      exact flagged
    | false =>
      have raised : p.raised = true := by
        by_contra calm
        cases (echo (Bool.eq_false_iff.mpr calm)).symm.trans wasOn
      have kept : p.setEcho true t = { p with echo := true, echoOnSince := some t } := by
        simp [Publisher.setEcho, wasOn, raised]
      rw [kept]
      exact ⟨flagged.boundary, fun _ calm => by cases raised.symm.trans calm⟩

theorem publish_inStep (p : Publisher) (now : Nat) : InStep (p.publish now).1 := by
  have inStep := build_inStep { p with boundary := false, dirty := false }
  unfold publish
  dsimp only
  generalize build { p with boundary := false, dirty := false } = built at *
  split_ifs
  · exact inStep
  · exact inStep.finish _ now false

theorem publish_flagged (p : Publisher) (now : Nat) : Flagged (p.publish now).1 := by
  rcases (publish_publishes p now).flags with ⟨boundary, dirty, -⟩
  have inStep := publish_inStep p now
  generalize (p.publish now).1 = q at *
  exact ⟨fun marked => absurd (boundary.symm.trans marked) nofun, fun _ _ => inStep⟩

theorem Flagged.poll (flagged : Flagged p) (raises : p.raiseAnnounce = true → p.raised = true)
    (now : Nat) : Flagged (p.poll now).1 := by
  have polled := poll_polled p now
  generalize p.poll now = result at polled
  cases polled with
  | announced announce =>
    have kept := buildRaise_source { p with raiseAnnounce := false }
    have flags := flags_of_source kept
    have raised : { p with raiseAnnounce := false }.buildRaise.1.raised = true := by
      have policy := congrArg Policy.raised (policy_of_source kept)
      exact policy.trans (raises announce)
    refine ⟨fun marked => ?_, fun _ calm => nomatch raised.symm.trans calm⟩
    exact flags.2.1.trans (flagged.boundary (flags.1.symm.trans marked))
  | withheld quiet stands => exact flagged.noteOutput now
  | waits quiet fell early => exact (flagged.noteOutput now).downgrade
  | published quiet fell due => exact publish_flagged _ now

theorem after_flagged {grace : Nat} (start : Follows grace [] p.policy) (fresh : Flagged p)
    (ordered : Ordered past) : Flagged (p.after past) := by
  induction past using List.reverseRecOn with
  | nil => exact fresh
  | append_singleton past call induction =>
    rcases ordered_snoc.mp ordered with ⟨earlier, -⟩
    have follows := after_follows start earlier
    have flagged := induction earlier
    rw [after_snoc]
    rcases call with ⟨call, t⟩
    cases input : call.isInput with
    | true => exact flagged.marks (input_marks input t).1
    | false =>
      cases call with
      | setEcho on =>
        refine flagged.setEcho (fun calm => ?_) on t
        rcases exists_after past with ⟨now, later⟩
        have steady := follows.calm calm now later
        refine follows.echo.trans ?_
        cases echo : echoAfter past with
        | off =>
          rw [echo] at steady
          cases steady
        | on since => rfl
      | poll => exact flagged.poll follows.announce t
      | _ => cases input

end Publisher

end EclipseOS.Cataclysm
