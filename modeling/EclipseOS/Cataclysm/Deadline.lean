import EclipseOS.Cataclysm.Drain

/-! # The rate of batches

How far apart batches come, by what the publisher keeps of its last one and of the last
output. -/

namespace EclipseOS.Cataclysm

open Foundation

namespace Publisher

variable {p : Publisher} {past : List (Call × Nat)} {now : Nat}

theorem noteOutput_lastPublish (p : Publisher) (now : Nat) :
    (p.noteOutput now).lastPublish = p.lastPublish :=
  congrArg Policy.lastPublish (noteOutput_policy p now)

theorem downgrade_lastPublish (p : Publisher) : p.downgrade.lastPublish = p.lastPublish :=
  congrArg Policy.lastPublish (downgrade_policy p)

theorem noteOutput_lastOutput (p : Publisher) (now : Nat) :
    (p.noteOutput now).lastOutput = if p.outputSeen then now else p.lastOutput :=
  congrArg Policy.lastOutput (noteOutput_policy p now)

theorem downgrade_lastOutput (p : Publisher) : p.downgrade.lastOutput = p.lastOutput :=
  congrArg Policy.lastOutput (downgrade_policy p)

theorem poll_lastPublish (p : Publisher) (now : Nat) :
    (p.poll now).1.lastPublish = if (p.poll now).2 = none then p.lastPublish else some now := by
  have polled := poll_polled p now
  generalize p.poll now = result at polled
  cases polled with
  | announced announce => exact (if_neg nofun).symm
  | withheld quiet stands =>
    rw [if_pos rfl]
    exact noteOutput_lastPublish p now
  | waits quiet fell early =>
    rw [if_pos rfl]
    exact (downgrade_lastPublish _).trans (noteOutput_lastPublish p now)
  | published quiet fell due =>
    have policy := (publish_publishes (p.noteOutput now).downgrade now).policy
    have before := (downgrade_lastPublish _).trans (noteOutput_lastPublish p now)
    generalize (p.noteOutput now).downgrade.publish now = built at *
    have last := congrArg Policy.lastPublish policy
    rw [← before]
    exact last

theorem call_lastPublish (p : Publisher) (call : Call) (t : Nat) :
    (p.call call t).1.lastPublish = p.lastPublish ∨ (p.call call t).1.lastPublish = some t := by
  cases input : call.isInput with
  | true => exact .inl (congrArg Policy.lastPublish (input_marks input t).1.policy)
  | false =>
    cases call with
    | setEcho on =>
      refine .inl ?_
      cases on <;> cases raised : p.raised <;> cases echo : p.echo <;>
        simp [call, setEcho, raised, echo]
    | poll =>
      change (p.poll t).1.lastPublish = _ ∨ (p.poll t).1.lastPublish = _
      rw [poll_lastPublish]
      split
      · exact .inl rfl
      · exact .inr rfl
    | _ => cases input

theorem sent_le_lastPublish {before between : List (Call × Nat)} {s : Nat}
    (ordered : Ordered (before ++ (.poll, s) :: between))
    (sent : ((p.after before).poll s).2 ≠ none) :
    ∃ last, (p.after (before ++ (.poll, s) :: between)).lastPublish = some last ∧ s ≤ last := by
  induction between using List.reverseRecOn with
  | nil =>
    refine ⟨s, ?_, Nat.le_refl s⟩
    rw [after_snoc]
    exact (poll_lastPublish _ s).trans (if_neg sent)
  | append_singleton between call induction =>
    have shift : before ++ (.poll, s) :: (between ++ [call]) =
        (before ++ (.poll, s) :: between) ++ [call] := by simp
    rw [shift] at ordered ⊢
    rcases ordered_snoc.mp ordered with ⟨earlier, later⟩
    rcases induction earlier with ⟨last, was, le⟩
    rw [after_snoc]
    rcases call_lastPublish (p.after (before ++ (.poll, s) :: between)) call.1 call.2 with
      same | new
    · exact ⟨last, same.trans was, le⟩
    · exact ⟨call.2, new, later (.poll, s) (by simp)⟩

theorem lastPublish_le {last : Nat} (start : p.lastPublish = none)
    (later : ∀ call ∈ past, call.2 ≤ now) (was : (p.after past).lastPublish = some last) :
    last ≤ now := by
  induction past using List.reverseRecOn with
  | nil => exact nomatch start.symm.trans was
  | append_singleton past call induction =>
    rw [after_snoc] at was
    rcases call_lastPublish (p.after past) call.1 call.2 with same | new
    · exact induction (fun earlier member => later earlier (List.mem_append_left _ member))
        (same.symm.trans was)
    · have same := Option.some.inj (new.symm.trans was)
      exact same ▸ later call (by simp)

/-- Nothing marks a boundary: no trigger came, and no raise is to be dropped. -/
structure Unmarked (p : Publisher) : Prop where
  boundary : p.boundary = false
  raised : p.raised = false
  announce : p.raiseAnnounce = false

theorem Unmarked.noteOutput (unmarked : Unmarked p) (now : Nat) :
    Unmarked (p.noteOutput now) := by
  unfold Publisher.noteOutput
  split
  · exact ⟨unmarked.boundary, unmarked.raised, unmarked.announce⟩
  · exact unmarked

theorem Unmarked.downgrade (unmarked : Unmarked p) : p.downgrade = p := by
  rw [Publisher.downgrade, if_neg]
  exact Bool.eq_false_iff.mp unmarked.raised

theorem published_unmarked (quiet : p.raiseAnnounce = false) (now : Nat) :
    Unmarked ((p.noteOutput now).downgrade.publish now).1 := by
  have published := publish_publishes (p.noteOutput now).downgrade now
  have announce : (p.noteOutput now).downgrade.raiseAnnounce = false :=
    (congrArg Policy.raiseAnnounce (downgrade_policy _)).trans (noteOutput_quiet quiet now)
  have calm := downgrade_raised (p.noteOutput now)
  generalize (p.noteOutput now).downgrade = q at *
  generalize (q.publish now) = built at *
  exact ⟨published.flags.1, (congrArg Policy.raised published.policy).trans calm,
    (congrArg Policy.raiseAnnounce published.policy).trans announce⟩

theorem content_due {batch : Batch} (sent : batch ∈ (p.poll now).2)
    (content : batch.urgent = false) :
    (p.noteOutput now).downgrade.due now = true ∧ Unmarked (p.poll now).1 := by
  have polled := poll_polled p now
  generalize p.poll now = result at polled sent
  cases polled with
  | announced announce =>
    have urgent := (buildRaise_announces _ now batch sent).1
    exact nomatch urgent.symm.trans content
  | withheld quiet stands => cases sent
  | waits quiet fell early => cases sent
  | published quiet fell due => exact ⟨due, published_unmarked quiet now⟩

/-- What marks a boundary: a trigger, or echo that went off and comes back. -/
def marking : Call → Bool
  | .setEcho on => !on
  | call => call.isBoundary

theorem Unmarked.call {call : Call} (unmarked : Unmarked p) (plain : marking call = false)
    (t : Nat) : Unmarked (p.call call t).1 := by
  cases input : call.isInput with
  | true =>
    have inside : call.isBoundary = false := by
      cases call <;> first | exact plain | cases input
    have marks := (input_marks (p := p) input t).1
    refine ⟨?_, ?_, ?_⟩
    · rw [Bool.eq_false_iff]
      intro marked
      rcases marks.boundary marked with before | trigger
      · cases before.symm.trans unmarked.boundary
      · cases trigger.symm.trans inside
    · exact (congrArg Policy.raised marks.policy).trans unmarked.raised
    · exact (congrArg Policy.raiseAnnounce marks.policy).trans unmarked.announce
  | false =>
    cases call with
    | setEcho on =>
      cases on with
      | false => cases plain
      | true =>
        rcases setEcho_raise (p := p) true t with ⟨raised, announce⟩
        refine ⟨?_, raised.trans ?_, announce.trans ?_⟩
        · have same : (p.setEcho true t).boundary = p.boundary := by
            cases echo : p.echo <;> simp [setEcho, echo]
          exact same.trans unmarked.boundary
        · simp [unmarked.raised]
        · simp [unmarked.announce]
    | poll =>
      have noted := unmarked.noteOutput t
      have polled := poll_polled p t
      change Unmarked (p.poll t).1
      generalize p.poll t = result at polled
      cases polled with
      | announced announce => cases unmarked.announce.symm.trans announce
      | withheld quiet stands => exact noted
      | waits quiet fell early =>
        rw [noted.downgrade]
        exact noted
      | published quiet fell due => exact published_unmarked quiet t
    | _ => cases input

theorem Unmarked.after (unmarked : Unmarked p)
    (plain : ∀ call ∈ past, marking call.1 = false) : Unmarked (p.after past) := by
  induction past using List.reverseRecOn with
  | nil => exact unmarked
  | append_singleton past call induction =>
    rw [after_snoc]
    have before := induction fun earlier member => plain earlier (List.mem_append_left _ member)
    exact before.call (plain call (by simp)) call.2

theorem output_seen {before between : List (Call × Nat)} {call : Call} {t : Nat}
    (ordered : Ordered (before ++ (call, t) :: between))
    (outputs : (p.after before).outputs call = true) :
    (p.after (before ++ (call, t) :: between)).outputSeen = true ∨
      t ≤ (p.after (before ++ (call, t) :: between)).lastOutput := by
  induction between using List.reverseRecOn with
  | nil =>
    rw [after_snoc]
    exact .inl (outputs_seen outputs t)
  | append_singleton between other induction =>
    have shift : before ++ (call, t) :: (between ++ [other]) =
        (before ++ (call, t) :: between) ++ [other] := by simp
    rw [shift] at ordered ⊢
    rcases ordered_snoc.mp ordered with ⟨earlier, later⟩
    have le : t ≤ other.2 := later (call, t) (by simp)
    have was := induction earlier
    rw [after_snoc]
    generalize p.after (before ++ (call, t) :: between) = q at *
    rcases other with ⟨other, s⟩
    cases input : other.isInput with
    | true =>
      have marks := (input_marks (p := q) input s).1
      refine was.imp marks.seen fun seen => ?_
      rw [show (q.call other s).1.lastOutput = q.lastOutput from
        congrArg Policy.lastOutput marks.policy]
      exact seen
    | false =>
      cases other with
      | setEcho on =>
        have same : (q.setEcho on s).outputSeen = q.outputSeen ∧
            (q.setEcho on s).lastOutput = q.lastOutput := by
          cases on <;> cases raised : q.raised <;> cases echo : q.echo <;>
            simp [setEcho, raised, echo]
        exact was.imp same.1.trans fun seen => same.2 ▸ seen
      | poll =>
        have noted : t ≤ (q.noteOutput s).lastOutput := by
          rw [noteOutput_lastOutput]
          split
          · exact le
          · rename_i unseen
            exact was.resolve_left unseen
        have polled := poll_polled q s
        change (q.poll s).1.outputSeen = true ∨ t ≤ (q.poll s).1.lastOutput
        generalize q.poll s = result at polled
        cases polled with
        | announced announce =>
          have kept := buildRaise_source { q with raiseAnnounce := false }
          refine was.imp (flags_of_source kept).2.2.trans fun seen => ?_
          exact le_of_le_of_eq seen (congrArg Policy.lastOutput (policy_of_source kept)).symm
        | withheld quiet stands => exact .inr noted
        | waits quiet fell early =>
          rw [downgrade_lastOutput]
          exact .inr noted
        | published quiet fell due =>
          refine .inr ?_
          rw [← downgrade_lastOutput] at noted
          have policy := (publish_publishes (q.noteOutput s).downgrade s).policy
          generalize (q.noteOutput s).downgrade.publish s = built at *
          have same := congrArg Policy.lastOutput policy
          exact le_of_le_of_eq noted same.symm
      | _ => cases input

end Publisher

end EclipseOS.Cataclysm

/-! ## Deadlines

Polling at each deadline publishes all that is pending: an announcement, the end of a
raise, output that was not seen yet, and the diff itself take one poll each. -/

namespace EclipseOS.Cataclysm

namespace Publisher

/-- Polls at each deadline, so many at most, until nothing is pending. -/
def drain : Nat → Publisher → Nat → Publisher
  | 0, p, _ => p
  | n + 1, p, now =>
    if p.nextDeadline = U64_MAX then p
    else drain n (p.poll (max now p.nextDeadline)).1 (max now p.nextDeadline)

/-- Nothing is pending, and all that the publisher holds is published. -/
structure Drained (p : Publisher) : Prop where
  deadline : p.nextDeadline = U64_MAX
  inStep : InStep p

/-- Echo is on, and what the publisher noted lies in the past. -/
structure Noted (p : Publisher) (now : Nat) : Prop where
  flagged : Flagged p
  announce : p.raiseAnnounce = true → p.raised = true
  echo : p.raised = true → ∃ t, p.echoOnSince = some t ∧ t ≤ now
  sent : ∀ last, p.lastPublish = some last → last ≤ now

/-- No announcement, raise or unseen output is left. -/
structure Settled (p : Publisher) : Prop where
  announce : p.raiseAnnounce = false
  raised : p.raised = false
  seen : p.outputSeen = false

variable {p : Publisher} {now : Nat}

theorem drain_drained (drained : Drained p) (n : Nat) : drain n p now = p := by
  cases n with
  | zero => rfl
  | succ n => rw [drain, if_pos drained.deadline]

theorem drain_poll {n : Nat} (early : p.nextDeadline < U64_MAX) :
    drain (n + 1) p now =
      drain n (p.poll (max now p.nextDeadline)).1 (max now p.nextDeadline) := by
  rw [drain, if_neg (Nat.ne_of_lt early)]

theorem Settled.drained (settled : Settled p) (flagged : Flagged p) (clean : p.dirty = false) :
    Drained p where
  deadline := by
    have unmarked : p.boundary = false := by
      by_contra marked
      exact nomatch (flagged.boundary (by simpa using marked)).symm.trans clean
    simp [nextDeadline, settled.announce, settled.raised, settled.seen, clean, unmarked]
  inStep := flagged.inStep clean settled.raised

theorem Settled.deadline (settled : Settled p) (noted : Noted p now) (dirty : p.dirty = true)
    (room : now + p.cfg.minIntervalNs < U64_MAX) :
    p.nextDeadline < U64_MAX ∧ p.due (max now p.nextDeadline) = true := by
  have last : p.lastPublish.getD 0 ≤ now := by
    cases sent : p.lastPublish with
    | none => exact Nat.zero_le _
    | some last => exact noted.sent last sent
  have deadline : p.nextDeadline =
      min (min (if p.boundary then
          min U64_MAX (if p.lastPublish = none then 0
            else saturatingAdd (p.lastPublish.getD 0) p.cfg.boundaryIntervalNs) else U64_MAX)
        (saturatingAdd (p.lastPublish.getD 0) p.cfg.minIntervalNs))
      (max (saturatingAdd p.lastOutput p.cfg.idleNs)
        (saturatingAdd (p.lastPublish.getD 0) p.cfg.boundaryIntervalNs)) := by
    simp [nextDeadline, settled.announce, settled.raised, settled.seen, dirty]
  generalize p.nextDeadline = d at *
  have due : p.due (max now d) = decide
      (((p.boundary = true ∨ p.cfg.idleNs ≤ max now d - p.lastOutput) ∧
          p.cfg.boundaryIntervalNs ≤ p.since (max now d)) ∨
        p.cfg.minIntervalNs ≤ p.since (max now d)) := by
    simp [Publisher.due, idle, dirty]
  rw [due, decide_eq_true_eq]
  simp only [saturatingAdd] at deadline
  cases sent : p.lastPublish with
  | none =>
    have always : p.since (max now d) = U64_MAX := by rw [since, sent]; rfl
    rw [always]
    simp only [sent, Option.getD_none] at deadline
    refine ⟨by omega, .inr (by omega)⟩
  | some l =>
    have always : p.since (max now d) = max now d - l := by rw [since, sent]; rfl
    rw [always]
    rw [sent, Option.getD_some] at last
    simp only [sent, Option.getD_some, reduceCtorEq, if_false] at deadline
    refine ⟨by omega, ?_⟩
    cases marked : p.boundary with
    | true =>
      simp only [marked, if_true] at deadline
      simp only [true_or, true_and]
      omega
    | false =>
      simp only [marked, Bool.false_eq_true, if_false] at deadline
      simp only [Bool.false_eq_true, false_or]
      omega

theorem poll_settled (quiet : p.raiseAnnounce = false)
    (fell : (p.noteOutput now).standing now = false) : Settled (p.poll now).1 := by
  have polled := poll_polled p now
  have seen : (p.noteOutput now).downgrade.outputSeen = false := by
    have noted : (p.noteOutput now).outputSeen = false := by
      unfold noteOutput
      split
      · rfl
      · simpa using ‹¬p.outputSeen = true›
    unfold downgrade
    split
    · exact noted
    · exact noted
  have announce : (p.noteOutput now).downgrade.raiseAnnounce = false :=
    (congrArg Policy.raiseAnnounce (downgrade_policy _)).trans (noteOutput_quiet quiet now)
  generalize p.poll now = result at polled
  cases polled with
  | announced raised => exact nomatch quiet.symm.trans raised
  | withheld _ stands => exact nomatch fell.symm.trans stands
  | waits _ _ _ => exact ⟨announce, downgrade_raised _, seen⟩
  | published _ _ _ =>
    have unmarked := published_unmarked quiet now
    have flags := (publish_publishes (p.noteOutput now).downgrade now).flags.2.2
    generalize (p.noteOutput now).downgrade.publish now = built at *
    exact ⟨unmarked.announce, unmarked.raised, flags.trans seen⟩

theorem poll_cfg (p : Publisher) (now : Nat) : (p.poll now).1.cfg = p.cfg := by
  have noted : (p.noteOutput now).cfg = p.cfg :=
    congrArg Policy.cfg (noteOutput_policy p now)
  have lowered : (p.noteOutput now).downgrade.cfg = p.cfg :=
    (congrArg Policy.cfg (downgrade_policy _)).trans noted
  have polled := poll_polled p now
  generalize p.poll now = result at polled
  cases polled with
  | announced announce =>
    exact congrArg Policy.cfg (policy_of_source (buildRaise_source { p with raiseAnnounce := false }))
  | withheld quiet stands => exact noted
  | waits quiet fell early => exact lowered
  | published quiet fell due =>
    have policy := (publish_publishes (p.noteOutput now).downgrade now).policy
    generalize (p.noteOutput now).downgrade.publish now = built at *
    exact (congrArg Policy.cfg policy).trans lowered

theorem Noted.poll (noted : Noted p now) {later : Nat} (le : now ≤ later) :
    Noted (p.poll later).1 later := by
  have flagged := noted.flagged.poll noted.announce later
  have sent : ∀ last, (p.poll later).1.lastPublish = some last → last ≤ later := by
    intro last was
    rw [poll_lastPublish] at was
    split at was
    · exact Nat.le_trans (noted.sent last was) le
    · exact Nat.le_of_eq (Option.some.inj was).symm
  have policy := noteOutput_policy p later
  have polled := poll_polled p later
  generalize p.poll later = result at *
  cases polled with
  | announced announce =>
    have kept := policy_of_source (buildRaise_source { p with raiseAnnounce := false })
    refine ⟨flagged, fun again => ?_, fun raised => ?_, sent⟩
    · exact nomatch (congrArg Policy.raiseAnnounce kept).symm.trans again
    · rcases noted.echo (noted.announce announce) with ⟨t, since, before⟩
      exact ⟨t, (congrArg Policy.echoOnSince kept).trans since, Nat.le_trans before le⟩
  | withheld quiet stands =>
    refine ⟨flagged, fun again => ?_, fun raised => ?_, sent⟩
    · exact nomatch (noteOutput_quiet quiet later).symm.trans again
    · rcases noted.echo ((congrArg Policy.raised policy).symm.trans raised) with
        ⟨t, since, before⟩
      exact ⟨t, (congrArg Policy.echoOnSince policy).trans since, Nat.le_trans before le⟩
  | waits quiet fell early =>
    refine ⟨flagged, fun again => ?_, fun raised => ?_, sent⟩
    · have announce := congrArg Policy.raiseAnnounce (downgrade_policy (p.noteOutput later))
      exact nomatch (announce.trans (noteOutput_quiet quiet later)).symm.trans again
    · exact nomatch (downgrade_raised _).symm.trans raised
  | published quiet fell due =>
    have unmarked := published_unmarked quiet later
    generalize (p.noteOutput later).downgrade.publish later = built at *
    refine ⟨flagged, fun again => ?_, fun raised => ?_, sent⟩
    · exact nomatch unmarked.announce.symm.trans again
    · exact nomatch unmarked.raised.symm.trans raised

theorem Settled.publishes (settled : Settled p) (due : p.due now = true) :
    p.poll now = p.publish now := by
  have noted : p.noteOutput now = p := by simp [noteOutput, settled.seen]
  have lowered : p.downgrade = p := by simp [downgrade, settled.raised]
  have fell : p.standing now = false := by simp [standing, settled.raised]
  simp [Publisher.poll, settled.announce, noted, fell, lowered, due]

theorem Settled.drain (settled : Settled p) (noted : Noted p now)
    (room : now + p.cfg.minIntervalNs < U64_MAX) (n : Nat) :
    Drained (drain (n + 1) p now) := by
  cases dirty : p.dirty with
  | false =>
    have drained := settled.drained noted.flagged dirty
    rw [drain_drained drained]
    exact drained
  | true =>
    rcases settled.deadline noted dirty room with ⟨early, due⟩
    have publishes := settled.publishes due
    have fell : (p.noteOutput (max now p.nextDeadline)).standing (max now p.nextDeadline) =
        false := by
      have noted : p.noteOutput (max now p.nextDeadline) = p := by
        simp [noteOutput, settled.seen]
      rw [noted]
      simp [standing, settled.raised]
    have after := poll_settled settled.announce fell
    have flagged := noted.flagged.poll noted.announce (max now p.nextDeadline)
    have clean : (p.poll (max now p.nextDeadline)).1.dirty = false := by
      rw [publishes]
      exact (publish_publishes p (max now p.nextDeadline)).flags.2.1
    have drained := after.drained flagged clean
    rw [drain_poll early, drain_drained drained]
    exact drained

theorem Noted.drain (noted : Noted p now)
    (room : now + p.cfg.downgradeGraceNs + p.cfg.minIntervalNs < U64_MAX) :
    Drained (drain 3 p now) := by
  have unraised : ∀ {p now} (n : Nat), Noted p now → p.raiseAnnounce = false →
      now + p.cfg.downgradeGraceNs + p.cfg.minIntervalNs < U64_MAX →
        Drained (Publisher.drain (n + 2) p now) := by
    intro p now n noted quiet room
    cases raised : p.raised with
    | true =>
      rcases noted.echo raised with ⟨t, since, before⟩
      have deadline : p.nextDeadline = t + p.cfg.downgradeGraceNs := by
        have full : saturatingAdd t p.cfg.downgradeGraceNs = t + p.cfg.downgradeGraceNs :=
          Nat.min_eq_left (by omega)
        simp [nextDeadline, quiet, raised, since, full]
      have fell : (p.noteOutput (max now p.nextDeadline)).standing (max now p.nextDeadline) =
          false := by
        have policy := noteOutput_policy p (max now p.nextDeadline)
        have since' := (congrArg Policy.echoOnSince policy).trans since
        have grace := congrArg (fun policy : Policy => policy.cfg.downgradeGraceNs) policy
        generalize p.noteOutput (max now p.nextDeadline) = q at *
        have since' : q.echoOnSince = some t := since'
        have grace : q.cfg.downgradeGraceNs = p.cfg.downgradeGraceNs := grace
        simp only [standing, since', grace, Bool.and_eq_false_imp, decide_eq_false_iff_not]
        omega
      have early : p.nextDeadline < U64_MAX := by omega
      rw [drain_poll early]
      refine (poll_settled quiet fell).drain (noted.poll (Nat.le_max_left ..)) ?_ n
      rw [poll_cfg]
      omega
    | false =>
      cases seen : p.outputSeen with
      | true =>
        have deadline : p.nextDeadline = 0 := by simp [nextDeadline, quiet, raised, seen]
        have fell : (p.noteOutput (max now p.nextDeadline)).standing
            (max now p.nextDeadline) = false := by
          have policy := noteOutput_policy p (max now p.nextDeadline)
          have calm := (congrArg Policy.raised policy).trans raised
          exact Bool.and_eq_false_imp.mpr fun raised => by cases calm.symm.trans raised
        have early : p.nextDeadline < U64_MAX := by omega
        rw [drain_poll early]
        refine (poll_settled quiet fell).drain (noted.poll (Nat.le_max_left ..)) ?_ n
        rw [poll_cfg]
        omega
      | false => exact Settled.drain ⟨quiet, raised, seen⟩ noted (by omega) (n + 1)
  cases announce : p.raiseAnnounce with
  | false => exact unraised 1 noted announce room
  | true =>
    have deadline : p.nextDeadline = 0 := by simp [nextDeadline, announce]
    have early : p.nextDeadline < U64_MAX := by omega
    have quiet : (p.poll (max now p.nextDeadline)).1.raiseAnnounce = false := by
      have polled := poll_polled p (max now p.nextDeadline)
      generalize p.poll (max now p.nextDeadline) = result at polled
      cases polled with
      | announced _ =>
        have kept := policy_of_source (buildRaise_source { p with raiseAnnounce := false })
        exact congrArg Policy.raiseAnnounce kept
      | withheld quiet _ => cases quiet.symm.trans announce
      | waits quiet _ _ => cases quiet.symm.trans announce
      | published quiet _ _ => cases quiet.symm.trans announce
    rw [drain_poll early]
    refine unraised 0 (noted.poll (Nat.le_max_left ..)) quiet ?_
    rw [poll_cfg]
    omega

end Publisher

end EclipseOS.Cataclysm
