import EclipseOS.Cataclysm.Calls

/-! # Echo

While the pty's echo is off nothing leaves the publisher but the announcement of it, and
nothing more until echo has been on for the grace. -/

namespace EclipseOS.Cataclysm

open Foundation

/-- The pty's echo after a run of calls: on since when it was last turned on. -/
inductive Echo where
  | off
  | on (since : Option Nat)
  deriving DecidableEq

namespace Echo

def after (echo : Echo) : Call × Nat → Echo
  | (.setEcho false, _) => off
  | (.setEcho true, t) => if echo = off then on (some t) else echo
  | _ => echo

def isOn : Echo → Bool
  | off => false
  | on _ => true

/-- When echo was last turned on, where it is on. -/
def since : Echo → Option Nat
  | off => none
  | on since => since

/-- Echo has been on for so long, without a break. -/
def steady (grace now : Nat) : Echo → Bool
  | off => false
  | on none => true
  | on (some t) => grace ≤ now - t

end Echo

def echoAfter (past : List (Call × Nat)) : Echo := past.foldl Echo.after (.on none)

theorem echoAfter_snoc (past : List (Call × Nat)) (call : Call × Nat) :
    echoAfter (past ++ [call]) = (echoAfter past).after call := by
  rw [echoAfter, List.foldl_append]
  rfl

/-- The batch says that echo is off, and nothing else but what the root needs. -/
def Announces (batch : Batch) : Prop :=
  batch.urgent = true ∧
    (batch.ops = [.setExt ROOT_ID "echo" "false", .commit] ∨
      batch.ops = [.setRoot ROOT_ID, .setRole ROOT_ID .terminal,
        .setExt ROOT_ID "echo" "false", .commit])

theorem Echo.after_input {call : Call} (isInput : call.isInput = true) (echo : Echo) (t : Nat) :
    echo.after (call, t) = echo := by
  cases call <;> first | rfl | cases isInput

theorem Echo.steady_since {echo : Echo} {grace now : Nat} (turned : echo ≠ .on none) :
    echo.steady grace now = true ↔ ∃ t, echo.since = some t ∧ grace ≤ now - t := by
  cases echo with
  | off => simp [steady, since]
  | on since =>
    cases since with
    | none => exact absurd rfl turned
    | some t => simp [steady, Echo.since]

theorem Echo.steady_later {echo : Echo} {grace earlier now : Nat} (later : earlier ≤ now)
    (steady : echo.steady grace earlier = true) : echo.steady grace now = true := by
  cases echo with
  | off => cases steady
  | on since =>
    cases since with
    | none => rfl
    | some t =>
      have held : grace ≤ earlier - t := of_decide_eq_true steady
      exact decide_eq_true (Nat.le_trans held (Nat.sub_le_sub_right later t))

namespace Publisher

theorem after_snoc (p : Publisher) (past : List (Call × Nat)) (call : Call × Nat) :
    p.after (past ++ [call]) = ((p.after past).call call.1 call.2).1 := by
  rw [after, List.foldl_append]
  rfl

theorem exists_after (past : List (Call × Nat)) : ∃ now, ∀ call ∈ past, call.2 ≤ now := by
  induction past with
  | nil => exact ⟨0, nofun⟩
  | cons call past induction =>
    rcases induction with ⟨now, later⟩
    refine ⟨max call.2 now, fun earlier member => ?_⟩
    rcases List.mem_cons.mp member with rfl | member
    · exact Nat.le_max_left ..
    · exact Nat.le_trans (later earlier member) (Nat.le_max_right ..)

theorem on_le {past : List (Call × Nat)} {now t : Nat} (later : ∀ call ∈ past, call.2 ≤ now)
    (on : echoAfter past = .on (some t)) : t ≤ now := by
  induction past using List.reverseRecOn with
  | nil => cases on
  | append_singleton past call induction =>
    rw [echoAfter_snoc] at on
    have before := induction fun earlier member => later earlier (List.mem_append_left _ member)
    have here : call.2 ≤ now := later call (by simp)
    rcases call with ⟨call, s⟩
    cases input : call.isInput with
    | true =>
      rw [Echo.after_input input] at on
      exact before on
    | false =>
      cases call with
      | setEcho turned =>
        cases turned with
        | false => cases on
        | true =>
          rw [Echo.after] at on
          split at on
          · cases on
            exact here
          · exact before on
      | poll => exact before on
      | _ => cases input

/-- The publisher's raise follows the echo: it falls only where echo has been on for the
grace. -/
structure Follows (grace : Nat) (past : List (Call × Nat)) (policy : Policy) : Prop where
  cfg : policy.cfg.downgradeGraceNs = grace
  echo : policy.echo = (echoAfter past).isOn
  announce : policy.raiseAnnounce = true → policy.raised = true
  raised : policy.raised = true →
    echoAfter past ≠ .on none ∧ policy.echoOnSince = (echoAfter past).since
  calm : policy.raised = false → ∀ now, (∀ call ∈ past, call.2 ≤ now) →
    (echoAfter past).steady grace now = true

theorem new_follows {cfg : Config} {rows cols : Nat} {p : Publisher}
    (start : new cfg rows cols = some p) : Follows p.cfg.downgradeGraceNs [] p.policy := by
  unfold new at start
  split_ifs at start
  cases start
  exact ⟨rfl, rfl, nofun, nofun, fun _ _ _ => rfl⟩

variable {grace : Nat} {past : List (Call × Nat)}

theorem Follows.kept {policy : Policy} {call : Call × Nat} (follows : Follows grace past policy)
    (same : (echoAfter past).after call = echoAfter past) :
    Follows grace (past ++ [call]) policy := by
  have unchanged : echoAfter (past ++ [call]) = echoAfter past :=
    (echoAfter_snoc past call).trans same
  refine ⟨follows.cfg, unchanged ▸ follows.echo, follows.announce,
    unchanged ▸ follows.raised, fun fell now later => ?_⟩
  rw [unchanged]
  exact follows.calm fell now fun earlier member =>
    later earlier (List.mem_append_left _ member)

theorem Follows.setEcho {p : Publisher} (follows : Follows grace past p.policy) (on : Bool)
    (t : Nat) : Follows grace (past ++ [(.setEcho on, t)]) (p.setEcho on t).policy := by
  have echo := follows.echo
  cases on with
  | false =>
    have off : echoAfter (past ++ [(.setEcho false, t)]) = .off := echoAfter_snoc ..
    have policy : (p.setEcho false t).policy =
        { p.policy with
          echo := false, raised := true, echoOnSince := none
          raiseAnnounce := p.raiseAnnounce || !p.raised } := by
      cases raised : p.raised <;> simp [Publisher.setEcho, Publisher.policy, raised]
    rw [policy]
    refine ⟨follows.cfg, ?_, fun _ => rfl, fun _ => ?_, by rintro ⟨⟩⟩
    · rw [off]
      rfl
    · rw [off]
      exact ⟨by rintro ⟨⟩, rfl⟩
  | true =>
    cases wasOn : p.echo with
    | true =>
      have policy : (p.setEcho true t).policy = p.policy := by
        simp [Publisher.setEcho, wasOn]
      rw [policy]
      refine follows.kept ?_
      rw [Echo.after, if_neg]
      intro off
      rw [off] at echo
      cases wasOn.symm.trans echo
    | false =>
      have off : echoAfter past = .off := by
        cases echoed : echoAfter past with
        | off => rfl
        | on since =>
          rw [echoed] at echo
          cases wasOn.symm.trans echo
      have raised : p.raised = true := by
        by_contra fell
        rcases exists_after past with ⟨now, later⟩
        have steady := follows.calm (Bool.eq_false_iff.mpr fell) now later
        rw [off] at steady
        cases steady
      have policy : (p.setEcho true t).policy =
          { p.policy with echo := true, echoOnSince := some t } := by
        simp [Publisher.setEcho, Publisher.policy, wasOn, raised]
      have turned : echoAfter (past ++ [(.setEcho true, t)]) = .on (some t) := by
        rw [echoAfter_snoc, off]
        rfl
      rw [policy]
      refine ⟨follows.cfg, ?_, follows.announce, fun _ => ?_, fun fell => ?_⟩
      · rw [turned]
        rfl
      · rw [turned]
        exact ⟨by rintro ⟨⟩, rfl⟩
      · cases raised.symm.trans fell

theorem buildRaise_announces (p : Publisher) (now : Nat) :
    ∀ b ∈ (p.buildRaise.1.finish p.buildRaise.2 now true).2, Announces b := by
  rintro _ ⟨⟩
  refine ⟨rfl, ?_⟩
  cases published : p.rootPublished with
  | false => exact .inr (by simp [finish, buildRaise, publishRoot, published, Out.append])
  | true => exact .inl (by simp [finish, buildRaise, publishRoot, published, Out.append, Out.empty])

theorem Follows.fell {p : Publisher} {now : Nat} (follows : Follows grace past p.policy)
    (later : ∀ call ∈ past, call.2 ≤ now) (fell : p.standing now = false) :
    (echoAfter past).steady grace now = true := by
  cases raised : p.raised with
  | false => exact follows.calm raised now later
  | true =>
    rcases standing_eq_false fell raised with ⟨t, since, held⟩
    rcases follows.raised raised with ⟨turned, echo⟩
    refine (Echo.steady_since turned).mpr ⟨t, echo.symm.trans since, ?_⟩
    exact follows.cfg ▸ held

theorem Follows.noteOutput {p : Publisher} (follows : Follows grace past p.policy) (now : Nat) :
    Follows grace past (p.noteOutput now).policy := by
  rw [noteOutput_policy]
  exact ⟨follows.cfg, follows.echo, follows.announce, follows.raised, follows.calm⟩

theorem Follows.downgrade {p : Publisher} {now : Nat} (follows : Follows grace past p.policy)
    (quiet : p.raiseAnnounce = false) (later : ∀ call ∈ past, call.2 ≤ now)
    (fell : p.standing now = false) :
    Follows grace (past ++ [(.poll, now)]) p.downgrade.policy := by
  have unchanged : echoAfter (past ++ [(.poll, now)]) = echoAfter past := echoAfter_snoc ..
  rw [downgrade_policy]
  refine ⟨follows.cfg, unchanged ▸ follows.echo, ?_, nofun, fun _ next nextLater => ?_⟩
  · intro announce
    exact nomatch quiet.symm.trans announce
  · rw [unchanged]
    exact Echo.steady_later (nextLater (.poll, now) (by simp)) (follows.fell later fell)

theorem noteOutput_quiet {p : Publisher} (quiet : p.raiseAnnounce = false) (now : Nat) :
    (p.noteOutput now).raiseAnnounce = false :=
  (congrArg Policy.raiseAnnounce (noteOutput_policy p now)).trans quiet

theorem Follows.poll {p : Publisher} {now : Nat} (follows : Follows grace past p.policy)
    (later : ∀ call ∈ past, call.2 ≤ now) :
    Follows grace (past ++ [(.poll, now)]) (p.poll now).1.policy := by
  have same : (echoAfter past).after (.poll, now) = echoAfter past := rfl
  have noted := follows.noteOutput now
  have polled := poll_polled p now
  generalize p.poll now = result at polled
  cases polled with
  | announced announce =>
    rw [announce_policy]
    have announced : Follows grace past
        { p.policy with raiseAnnounce := false, lastPublish := some now } :=
      ⟨follows.cfg, follows.echo, nofun, follows.raised, follows.calm⟩
    exact announced.kept same
  | withheld quiet stands => exact noted.kept same
  | waits quiet fell early => exact noted.downgrade (noteOutput_quiet quiet now) later fell
  | published quiet fell due =>
    have lowered := noted.downgrade (noteOutput_quiet quiet now) later fell
    rw [(publish_publishes _ now).policy]
    exact ⟨lowered.cfg, lowered.echo, lowered.announce, lowered.raised, lowered.calm⟩

theorem Follows.batch {p : Publisher} {now : Nat} (follows : Follows grace past p.policy)
    (later : ∀ call ∈ past, call.2 ≤ now) (batch : Batch) (sent : batch ∈ (p.poll now).2) :
    p.raiseAnnounce = true ∧ Announces batch ∨
      p.raiseAnnounce = false ∧ batch.urgent = false ∧
        (echoAfter past).steady grace now = true := by
  have polled := poll_polled p now
  generalize p.poll now = result at polled sent
  cases polled with
  | announced announce => exact .inl ⟨announce, buildRaise_announces _ now batch sent⟩
  | withheld quiet stands => cases sent
  | waits quiet fell early => cases sent
  | published quiet fell due =>
    refine .inr ⟨quiet, (publish_publishes _ now).quiet batch sent, ?_⟩
    exact (follows.noteOutput now).fell later fell

theorem after_follows {p : Publisher} (start : Follows grace [] p.policy)
    (ordered : Ordered past) : Follows grace past (p.after past).policy := by
  induction past using List.reverseRecOn with
  | nil => exact start
  | append_singleton past call induction =>
    rcases ordered_snoc.mp ordered with ⟨ordered, later⟩
    have follows := induction ordered
    rw [after_snoc]
    rcases call with ⟨call, t⟩
    cases input : call.isInput with
    | true =>
      rw [(input_marks input t).1.policy]
      exact follows.kept (Echo.after_input input _ t)
    | false =>
      cases call with
      | setEcho on => exact follows.setEcho on t
      | poll => exact follows.poll later
      | _ => cases input

end Publisher

end EclipseOS.Cataclysm
