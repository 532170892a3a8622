import EclipseOS.Cataclysm.Deadline

/-! # Echo off withholds text

The publisher over every run: what echo withholds, how far apart batches come, and that
nothing is dropped. -/

namespace EclipseOS.Cataclysm

open Foundation

structure Held where
  rows : Nat
  cols : Nat
  primary : Screen
  alternate : Screen
  alt : Bool
  cursor : Nat × Nat
  echo : Bool
  blocks : List Block

namespace Publisher

/-- Blocks that scrolled off the screen no longer count. -/
def held (p : Publisher) : Held :=
  ⟨p.rows, p.cols, p.primary, p.alternate, p.alt, p.cursor, p.echo,
    (p.blocks.filter (¬p.scrolledOff ·)).map Block.core⟩

variable {p : Publisher} {past : List (Call × Nat)} {now : Nat}

theorem held_of_source {p q : Publisher} (same : q.source = p.source)
    (blocks : (q.blocks.filter (¬q.scrolledOff ·)).map Block.core =
      (p.blocks.filter (¬p.scrolledOff ·)).map Block.core) : q.held = p.held := by
  have grid := congrArg (fun r : Publisher => r.held) same
  have grid : ({ q.held with blocks := [] } : Held) = { p.held with blocks := [] } := grid
  have rebuilt := congrArg (fun held : Held => { held with blocks := p.held.blocks }) grid
  have blocks : q.held.blocks = p.held.blocks := blocks
  exact (congrArg (fun blocks => ({ q.held with blocks := blocks } : Held)) blocks).trans rebuilt

theorem build_held (p : Publisher) : p.build.1.held = p.held := by
  have source := build_source p
  have onScreen := (build_inStep p).onScreen
  have blocks := build_blocks p
  generalize p.build.1 = q at *
  have all : q.blocks.filter (¬q.scrolledOff ·) = q.blocks := by
    rw [List.filter_eq_self]
    intro b member
    simpa using onScreen b member
  apply held_of_source source
  rw [all]
  exact blocks

theorem publish_held (p : Publisher) (now : Nat) : (p.publish now).1.held = p.held := by
  have kept := build_held { p with boundary := false, dirty := false }
  unfold publish
  dsimp only
  generalize build { p with boundary := false, dirty := false } = built at *
  split_ifs
  · exact kept
  · exact kept

theorem buildRaise_held (p : Publisher) : p.buildRaise.1.held = p.held := by
  apply held_of_source (buildRaise_source p)
  have blocks : p.buildRaise.1.blocks = p.blocks := publishRoot_blocks p
  have top : p.buildRaise.1.primary = p.primary := primary_of_source (buildRaise_source p)
  have scrolled : p.buildRaise.1.scrolledOff = p.scrolledOff := by
    funext b
    simp only [scrolledOff, top]
  rw [blocks, scrolled]

theorem poll_held (p : Publisher) (now : Nat) : (p.poll now).1.held = p.held := by
  have noted : (p.noteOutput now).held = p.held := by
    unfold noteOutput
    split <;> rfl
  have lowered : (p.noteOutput now).downgrade.held = p.held := by
    refine Eq.trans ?_ noted
    unfold downgrade
    split <;> rfl
  have polled := poll_polled p now
  generalize p.poll now = result at polled
  cases polled with
  | announced announce => exact buildRaise_held { p with raiseAnnounce := false }
  | withheld quiet stands => exact noted
  | waits quiet fell early => exact lowered
  | published quiet fell due => exact (publish_held _ now).trans lowered

theorem drain_held (n : Nat) (p : Publisher) (now : Nat) : (drain n p now).held = p.held := by
  induction n generalizing p now with
  | zero => rfl
  | succ n induction =>
    rw [drain]
    split
    · rfl
    · exact (induction ..).trans (poll_held ..)

theorem after_cfg (p : Publisher) (past : List (Call × Nat)) : (p.after past).cfg = p.cfg := by
  induction past using List.reverseRecOn with
  | nil => rfl
  | append_singleton past call induction =>
    rw [after_snoc]
    refine Eq.trans ?_ induction
    generalize p.after past = q
    rcases call with ⟨call, t⟩
    cases input : call.isInput with
    | true => exact congrArg Policy.cfg (input_marks input t).1.policy
    | false =>
      cases call with
      | setEcho on =>
        cases on <;> cases raised : q.raised <;> cases echo : q.echo <;>
          simp [call, setEcho, raised, echo]
      | poll => exact poll_cfg q t
      | _ => cases input

theorem new_start {cfg : Config} {rows cols : Nat} (start : new cfg rows cols = some p) :
    p.cfg = cfg.clamped ∧ p.raised = false ∧ p.lastPublish = none := by
  unfold new at start
  split_ifs at start
  cases start
  exact ⟨rfl, rfl, rfl⟩

theorem due_after {last : Nat} (due : p.due now = true) (sent : p.lastPublish = some last) :
    (p.boundary = true ∨ p.idle now = true) ∧ p.cfg.boundaryIntervalNs ≤ now - last ∨
      p.cfg.minIntervalNs ≤ now - last := by
  have since : p.since now = now - last := by rw [since, sent]; rfl
  rcases of_decide_eq_true due with ⟨marked, apart⟩ | ⟨-, apart⟩
  · exact .inl ⟨marked, since ▸ apart⟩
  · exact .inr (since ▸ apart)

theorem content_after {last : Nat} {batch : Batch} (sent : batch ∈ (p.poll now).2)
    (content : batch.urgent = false) (before : p.lastPublish = some last) :
    ((p.noteOutput now).downgrade.boundary = true ∨
        (p.noteOutput now).downgrade.idle now = true) ∧
          p.cfg.boundaryIntervalNs ≤ now - last ∨ p.cfg.minIntervalNs ≤ now - last := by
  have due := (content_due sent content).1
  have lastPublish : (p.noteOutput now).downgrade.lastPublish = some last :=
    ((downgrade_lastPublish _).trans (noteOutput_lastPublish p now)).trans before
  have cfg : (p.noteOutput now).downgrade.cfg = p.cfg :=
    (congrArg Policy.cfg (downgrade_policy _)).trans (congrArg Policy.cfg (noteOutput_policy p now))
  rw [← cfg]
  exact due_after due lastPublish

theorem idle_seen (idle : (p.noteOutput now).downgrade.idle now = true)
    (idles : 0 < p.cfg.idleNs) : p.outputSeen = false ∧ p.lastOutput + p.cfg.idleNs ≤ now := by
  have long := (of_decide_eq_true idle).2
  rw [downgrade_lastOutput, noteOutput_lastOutput] at long
  have cfg : (p.noteOutput now).downgrade.cfg = p.cfg :=
    (congrArg Policy.cfg (downgrade_policy _)).trans (congrArg Policy.cfg (noteOutput_policy p now))
  rw [cfg] at long
  cases seen : p.outputSeen with
  | true =>
    rw [seen, if_pos rfl] at long
    omega
  | false =>
    rw [seen, if_neg nofun] at long
    exact ⟨rfl, by omega⟩

theorem after_append (p : Publisher) (before between : List (Call × Nat)) (call : Call × Nat) :
    p.after (before ++ call :: between) =
      ((p.after before).call call.1 call.2).1.after between := by
  rw [after, List.foldl_append]
  rfl

/-- The first poll after echo went off announces it. -/
def AnnouncesNext (p : Publisher) : Prop :=
  ∀ before t between now, Ordered (before ++ (.setEcho false, t) :: between ++ [(.poll, now)]) →
    (∀ call ∈ between, call.1 ≠ .poll) →
      ∃ batch ∈ ((p.after (before ++ (.setEcho false, t) :: between)).poll now).2,
        Announces batch

/-- Batches that do not announce are so far apart. -/
def Apart (p : Publisher) (interval : Nat) : Prop :=
  ∀ before s between now, Ordered (before ++ (.poll, s) :: between ++ [(.poll, now)]) →
    (∃ batch ∈ ((p.after before).poll s).2, batch.urgent = false) →
      (∃ batch ∈ ((p.after (before ++ (.poll, s) :: between)).poll now).2,
        batch.urgent = false) → s + interval ≤ now

/-- With echo on, polls at the deadlines that end without one leave nothing unpublished. -/
def DropsNothing (p : Publisher) : Prop :=
  ∀ past now n, Ordered (past ++ [(.poll, now)]) → (echoAfter past).isOn = true →
    (drain n (p.after past) now).nextDeadline = U64_MAX → InStep (drain n (p.after past) now)

structure Withholds (p : Publisher) : Prop where
  announced : ∀ before t between now,
    Ordered (before ++ (.setEcho false, t) :: between ++ [(.poll, now)]) →
      (∀ call ∈ between, call.1 ≠ .poll) →
        (∃ batch ∈ ((p.after (before ++ (.setEcho false, t) :: between)).poll now).2,
          Announces batch) ∨
        p.Stands before ∧
          ∀ batch ∈ ((p.after (before ++ (.setEcho false, t) :: between)).poll now).2,
            batch.urgent = false
  withheld : ∀ past now, Ordered (past ++ [(.poll, now)]) →
    ∀ batch ∈ ((p.after past).poll now).2, Announces batch ∨
      batch.urgent = false ∧ (echoAfter past).steady p.cfg.downgradeGraceNs now = true
  apart : p.Apart (min p.cfg.boundaryIntervalNs p.cfg.minIntervalNs)
  slow : ∀ before s between now, Ordered (before ++ (.poll, s) :: between ++ [(.poll, now)]) →
    (∃ batch ∈ ((p.after before).poll s).2, batch.urgent = false) →
      (∃ batch ∈ ((p.after (before ++ (.poll, s) :: between)).poll now).2,
        batch.urgent = false) →
        (∃ call ∈ between, marking call.1 = true) ∨
          (∀ earlier call t later,
            before ++ (.poll, s) :: between = earlier ++ (call, t) :: later →
              (p.after earlier).outputs call = true → t + p.cfg.idleNs ≤ now) ∨
            s + p.cfg.minIntervalNs ≤ now
  drained : ∀ past now, Ordered (past ++ [(.poll, now)]) → (echoAfter past).isOn = true →
    now + p.cfg.downgradeGraceNs + p.cfg.minIntervalNs < U64_MAX →
      Drained (drain 3 (p.after past) now) ∧
        (drain 3 (p.after past) now).held = (p.after past).held

/-- A publisher announces that echo is off, withholds what it holds until echo has been on
for the grace, keeps its batches apart and drops nothing. -/
theorem withholds {cfg : Config} {rows cols : Nat} (start : new cfg rows cols = some p) :
    Withholds p := by
  have follows := new_follows start
  have flagged := new_flagged start
  rcases new_start start with ⟨clamped, calm, unsent⟩
  have idles : 0 < p.cfg.idleNs := by
    rw [clamped]
    exact Nat.lt_of_lt_of_le (by decide) (Nat.le_max_right _ _)
  constructor
  case announced =>
    intro before t between now ordered unpolled
    exact next_poll follows calm ordered.left.left unpolled
  case withheld =>
    intro past now ordered batch sent
    rcases ordered_snoc.mp ordered with ⟨earlier, later⟩
    rcases (after_follows follows earlier).batch later batch sent with
      ⟨-, announces⟩ | ⟨-, content, steady⟩
    · exact .inl announces
    · exact .inr ⟨content, steady⟩
  case apart =>
    rintro before s between now ordered ⟨first, sent, -⟩ ⟨batch, now', content⟩
    rcases ordered_snoc.mp ordered with ⟨earlier, later⟩
    have some : ((p.after before).poll s).2 ≠ none := fun none => by
      rw [none] at sent
      cases sent
    rcases sent_le_lastPublish earlier some with ⟨last, was, le⟩
    have last_le := lastPublish_le unsent later was
    have due := content_after now' content was
    rw [after_cfg] at due
    omega
  case slow =>
    rintro before s between now ordered ⟨first, sent, plain⟩ ⟨batch, now', content⟩
    rcases ordered_snoc.mp ordered with ⟨earlier, later⟩
    have some : ((p.after before).poll s).2 ≠ none := fun none => by
      rw [none] at sent
      cases sent
    rcases sent_le_lastPublish earlier some with ⟨last, was, le⟩
    have last_le := lastPublish_le unsent later was
    by_cases marked : ∃ call ∈ between, marking call.1 = true
    · exact .inl marked
    refine .inr ?_
    have plainly : ∀ call ∈ between, marking call.1 = false := by
      intro call member
      rw [Bool.eq_false_iff]
      exact fun marks => marked ⟨call, member, marks⟩
    have cleared := (content_due sent plain).2
    have unmarked : Unmarked (p.after (before ++ (.poll, s) :: between)) := by
      rw [after_append]
      exact cleared.after plainly
    have boundary : (((p.after (before ++ (.poll, s) :: between)).noteOutput now).downgrade).boundary
        = false := by
      rw [(unmarked.noteOutput now).downgrade]
      exact (unmarked.noteOutput now).boundary
    rcases content_after now' content was with ⟨marks | idle, -⟩ | apart
    · exact nomatch boundary.symm.trans marks
    · rcases idle_seen idle (by rwa [after_cfg]) with ⟨seen, long⟩
      rw [after_cfg] at long
      refine .inl fun before' call t after' split outputs => ?_
      rw [split] at earlier seen long
      rcases output_seen earlier outputs with pending | before_last
      · exact nomatch seen.symm.trans pending
      · omega
    · rw [after_cfg] at apart
      exact .inr (by omega)
  case drained =>
    intro past now ordered on room
    rcases ordered_snoc.mp ordered with ⟨earlier, later⟩
    refine ⟨?_, drain_held ..⟩
    have held := after_follows follows earlier
    have noted : Noted (p.after past) now := by
      refine ⟨after_flagged follows flagged earlier, held.announce, fun raised => ?_,
        fun last => lastPublish_le unsent later⟩
      rcases held.raised raised with ⟨turned, since⟩
      cases echo : echoAfter past with
      | off =>
        rw [echo] at on
        cases on
      | on at_ =>
        rw [echo] at turned since
        cases at_ with
        | none => exact absurd rfl turned
        | some t => exact ⟨t, since, on_le later echo⟩
    refine noted.drain ?_
    rw [after_cfg]
    exact room

theorem withholds_one_row : Withholds ((new Config.default 1 1).get rfl) :=
  withholds (Option.some_get _).symm

/-- A boundary interval longer than the output interval. -/
def slowBoundary : Config := { Config.default with boundaryIntervalNs := 300 * MS }

def endless : Config := ⟨U64_MAX, U64_MAX, U64_MAX, U64_MAX⟩

/-- Echo that goes off again while its announcement stands is not announced again; output
goes out at its own interval, also where boundaries wait longer; and a deadline past the
clock's end reads as none. -/
theorem not_every_run :
    ¬(∀ cfg rows cols p, new cfg rows cols = some p → AnnouncesNext p) ∧
      ¬(∀ cfg rows cols p, new cfg rows cols = some p → Apart p p.cfg.boundaryIntervalNs) ∧
        ¬(∀ cfg rows cols p, new cfg rows cols = some p → DropsNothing p) := by
  refine ⟨fun claim => ?_, fun claim => ?_, fun claim => ?_⟩
  · rcases claim Config.default 1 1 _ rfl [(.setEcho false, 0), (.poll, 1), (.setEcho true, 2)] 3
      [] 4 (by decide) nofun with ⟨batch, sent, -⟩
    cases sent
  · let p := (new slowBoundary 1 2).get rfl
    have first : ((p.after []).poll 0).2.any (!·.urgent) = true := by decide +kernel
    have second : ((p.after [(.poll, 0), (.setCursor 0 1, 1)]).poll (200 * MS)).2.any
        (!·.urgent) = true := by decide +kernel
    have content : ∀ {batch : Option Batch}, batch.any (!·.urgent) = true →
        ∃ b ∈ batch, b.urgent = false := by
      intro batch plain
      cases batch with
      | none => cases plain
      | some b => exact ⟨b, rfl, by simpa using plain⟩
    have apart := claim slowBoundary 1 2 p rfl [] 0 [(.setCursor 0 1, 1)] (200 * MS) (by decide)
      (content first) (content second)
    exact absurd apart (by decide)
  · let p := (new endless 1 2).get rfl
    have waits : (p.after [(.poll, 0), (.setCursor 0 1, 1)]).nextDeadline = U64_MAX := by
      decide +kernel
    have inStep := claim endless 1 2 p rfl [(.poll, 0), (.setCursor 0 1, 1)] 2 0 (by decide) rfl
      waits
    have cursor := inStep.cursor
    have stale : (p.after [(.poll, 0), (.setCursor 0 1, 1)]).pubCursor = some (0, 0) := by
      decide +kernel
    exact absurd (stale.symm.trans cursor) (by decide +kernel)

end Publisher

end EclipseOS.Cataclysm
