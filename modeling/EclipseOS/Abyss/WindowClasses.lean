import EclipseOS.Foundation.FirstMatch
import EclipseOS.Foundation.History
import EclipseOS.PolicyEval.Classify

/-! # Window classes, as the compositor holds them

The class itself is the classifier's. What is added is time: a raise is immediate, a
downgrade waits until the raising condition has been gone for a grace. -/

namespace EclipseOS.Abyss.WindowClasses

open Foundation PolicyEval
export PolicyEval (Class)

def downgradeGrace : Nat := 500000000

structure Held where
  «class» : Class
  /-- When the raising condition was first seen gone, if it is. -/
  absentSince : Option Nat
  deriving DecidableEq

namespace Held

/-- A held class that finds `fresh` at `now`. -/
def seen (held : Held) (fresh : Class) (now : Nat) : Held :=
  if held.class.rank ≤ fresh.rank then
    ⟨fresh, none⟩
  else
    match held.absentSince with
    | none => { held with absentSince := some now }
    | some since => if downgradeGrace ≤ now - since then ⟨fresh, none⟩ else held

/-- What a reader at `now` is told. -/
def reported (held : Held) (fresh : Class) (now : Nat) : Class :=
  if fresh.rank < held.class.rank then
    match held.absentSince with
    | some since => if downgradeGrace ≤ now - since then fresh else held.class
    | none => held.class
  else
    fresh

end Held

section Windows

variable [RegexEngine] {Window : Type} [DecidableEq Window]

/-- What the facts of the windows and the configuration are at one time. -/
structure Scene [RegexEngine] (Window : Type) where
  policyTable : Option Classifier
  target : Window → TargetFacts
  /-- The compositor's own sensitive set. -/
  sensitive : Window → Bool
  redactAppId : List String

namespace Scene

def ownRaise (scene : Scene Window) (window : Window) (appId : Option String) : Class :=
  let redacted := appId.any fun id => scene.redactAppId.any (· = id)
  if scene.sensitive window ∨ redacted then .secret else .«public»

/-- The class `window` would have right now, before any held raise. -/
def fresh (scene : Scene Window) (window : Window) : Classified :=
  match scene.policyTable with
  | none => ⟨.secret, false⟩
  | some classifier =>
    let target := scene.target window
    classifier.classifyTarget target (scene.ownRaise window target.appId)

end Scene

/-- Held classes, one per window that has been classified. -/
structure Classes (Window : Type) where
  held : List (Window × Held)

/-- The compositor's windows: their held classes, and those that are gone. -/
structure Desk (Window : Type) where
  classes : Classes Window
  gone : List Window

namespace Desk

def default : Desk Window := ⟨⟨[]⟩, []⟩

def alive (desk : Desk Window) (window : Window) : Bool := window ∉ desk.gone

def held (desk : Desk Window) (window : Window) : Option Held :=
  (desk.classes.held.find? (·.1 = window)).map (·.2)

/-- The class agents see `window` as. -/
def classOf (desk : Desk Window) (scene : Scene Window) (window : Window) (now : Nat) : Class :=
  if !desk.alive window then
    .secret
  else
    let fresh := (scene.fresh window).class
    match desk.held window with
    | some held => held.reported fresh now
    | none => fresh

/-- Re-classifies `window`, on map and on commit. -/
def recompute (desk : Desk Window) (scene : Scene Window) (window : Window) (now : Nat) :
    Desk Window :=
  let held := desk.classes.held.filter fun entry => desk.alive entry.1
  let fresh := (scene.fresh window).class
  let held := match held.find? (·.1 = window) with
    | none => held ++ [(window, ⟨fresh, none⟩)]
    | some _ => modifyFirst (·.1 = window) (fun entry => (entry.1, entry.2.seen fresh now)) held
  { desk with classes := ⟨held⟩ }

end Desk

inductive Event [RegexEngine] (Window : Type) where
  | recompute (scene : Scene Window) (window : Window)
  | destroyed (window : Window)

namespace Desk

def serve (desk : Desk Window) : Event Window × Nat → Desk Window
  | (.recompute scene window, now) => desk.recompute scene window now
  | (.destroyed window, _) => { desk with gone := window :: desk.gone }

def after (events : List (Event Window × Nat)) : Desk Window := events.foldl serve default

/-- The fresh classes `window` was found to have, and when. -/
def samples (window : Window) (events : List (Event Window × Nat)) : List (Class × Nat) :=
  events.filterMap fun
    | (.recompute scene other, now) =>
      if other = window then some ((scene.fresh window).class, now) else none
    | _ => none

/-- Between these events time reads `t`. -/
def At (before later : List (Event Window × Nat)) (t : Nat) : Prop :=
  (∀ call ∈ before, call.2 ≤ t) ∧ ∀ call ∈ later, t ≤ call.2

instance (before later : List (Event Window × Nat)) (t : Nat) : Decidable (At before later t) :=
  inferInstanceAs (Decidable (_ ∧ _))

/-- At every time the class told is at least each class the window had within the
grace before. The class is recomputed at each change, so a reader finds the last one. -/
def Graced (window : Window) (events : List (Event Window × Nat)) : Prop :=
  ∀ before later, events = before ++ later → ∀ t scene, At before later t →
    inForce (samples window before) t = some (scene.fresh window).class →
      ∀ moment found, t ≤ moment + downgradeGrace → moment ≤ t →
        inForce (samples window before) moment = some found →
          found.rank ≤ ((after before).classOf scene window t).rank

end Desk

end Windows

/-- The grace of a held `secret` has run out at `t` on a window that is `public`, and was
`private` within the grace. -/
def Held.Staircase (held : Option Held) (samples : List (Class × Nat)) (t : Nat) : Prop :=
  ∃ since, held = some ⟨.secret, some since⟩ ∧ downgradeGrace ≤ t - since ∧
    inForce samples t = some .«public» ∧
      ∃ moment, t ≤ moment + downgradeGrace ∧ moment ≤ t ∧
        inForce samples moment = some .«private»

namespace Held

variable {held : Held} {samples : List (Class × Nat)} {fresh : Class} {now : Nat}

/-- What is held after a history of fresh classes. -/
structure Tracks (samples : List (Class × Nat)) (held : Held) : Prop where
  last : ∃ past fresh now, samples = past ++ [(fresh, now)] ∧
    (held.absentSince = none → held.class = fresh)
  /-- Since the raising condition went, it was absent throughout. -/
  below : ∀ since, held.absentSince = some since → ∀ moment found, since ≤ moment →
    inForce samples moment = some found → found.rank < held.class.rank

/-- At no later time was a class of the last grace higher than the held one. -/
def Covers (samples : List (Class × Nat)) (held : Held) : Prop :=
  ∀ t, (∀ sample ∈ samples, sample.2 ≤ t) → ∀ moment found, t ≤ moment + downgradeGrace →
    inForce samples moment = some found → found.rank ≤ held.class.rank

theorem seen_of_le (raised : held.class.rank ≤ fresh.rank) : held.seen fresh now = ⟨fresh, none⟩ :=
  if_pos raised

theorem seen_of_lt (lower : fresh.rank < held.class.rank) :
    held.seen fresh now = match held.absentSince with
      | none => { held with absentSince := some now }
      | some since => if downgradeGrace ≤ now - since then ⟨fresh, none⟩ else held :=
  if_neg (Nat.not_le.mpr lower)

theorem tracks_first : Tracks [(fresh, now)] ⟨fresh, none⟩ :=
  ⟨⟨[], fresh, now, rfl, fun _ => rfl⟩, nofun⟩

theorem covers_first : Covers [(fresh, now)] ⟨fresh, none⟩ := by
  intro t _ moment found _ isFound
  have split : [(fresh, now)] = [] ++ [(fresh, now)] := rfl
  rw [split, inForce_snoc] at isFound
  split at isFound
  · cases isFound
    exact Nat.le_refl _
  · cases isFound

theorem Tracks.seen (tracks : Tracks samples held) (fresh : Class) (now : Nat) :
    Tracks (samples ++ [(fresh, now)]) (held.seen fresh now) := by
  by_cases raised : held.class.rank ≤ fresh.rank
  · rw [seen_of_le raised]
    exact ⟨⟨samples, fresh, now, rfl, fun _ => rfl⟩, nofun⟩
  · have lower := Nat.lt_of_not_le raised
    rw [seen_of_lt lower]
    cases absent : held.absentSince with
    | none =>
      refine ⟨⟨samples, fresh, now, rfl, nofun⟩, ?_⟩
      intro since isSince moment found reached isFound
      cases isSince
      rw [inForce_snoc, if_pos reached] at isFound
      cases isFound
      exact lower
    | some started =>
      by_cases elapsed : downgradeGrace ≤ now - started
      · simp only [if_pos elapsed]
        exact ⟨⟨samples, fresh, now, rfl, fun _ => rfl⟩, nofun⟩
      · simp only [if_neg elapsed]
        refine ⟨⟨samples, fresh, now, rfl, fun missing => by rw [missing] at absent; cases absent⟩, ?_⟩
        intro since isSince moment found reached isFound
        rw [inForce_snoc] at isFound
        split at isFound
        · cases isFound
          exact lower
        · exact tracks.below since isSince moment found reached isFound

/-- Where a downgrade's grace has run out and there is no staircase, the fresh class is
as high as any of the last grace. -/
theorem fresh_covers {since t moment : Nat} {found : Class} (absent : held.absentSince = some since)
    (elapsed : downgradeGrace ≤ t - since) (flat : ¬Staircase (some held) samples t)
    (current : inForce samples t = some fresh) (lower : fresh.rank < held.class.rank)
    (recent : t ≤ moment + downgradeGrace) (reached : moment ≤ t)
    (isFound : inForce samples moment = some found) (below : found.rank < held.class.rank) :
    found.rank ≤ fresh.rank := by
  rcases held with ⟨«class», _⟩
  subst absent
  by_contra higher
  -- three classes leave one way to descend in two steps
  have steps : «class» = .secret ∧ fresh = .«public» ∧ found = .«private» := by
    cases «class» <;> cases found <;> cases fresh <;> simp_all [Class.rank]
  rcases steps with ⟨rfl, rfl, rfl⟩
  exact flat ⟨since, rfl, elapsed, current, moment, recent, reached, isFound⟩

theorem Covers.seen (covers : Covers samples held) (tracks : Tracks samples held)
    (ordered : ∀ sample ∈ samples, sample.2 ≤ now)
    (flat : ¬Staircase (some held) (samples ++ [(fresh, now)]) now) :
    Covers (samples ++ [(fresh, now)]) (held.seen fresh now) := by
  intro t reached moment found recent isFound
  have atNow : now ≤ t := reached (fresh, now) (by simp)
  rw [inForce_snoc] at isFound
  by_cases raised : held.class.rank ≤ fresh.rank
  · rw [seen_of_le raised]
    split at isFound
    · cases isFound
      exact Nat.le_refl _
    · exact Nat.le_trans (covers now ordered moment found (by omega) isFound) raised
  · have lower := Nat.lt_of_not_le raised
    have kept : found.rank ≤ held.class.rank := by
      split at isFound
      · cases isFound
        exact Nat.le_of_lt lower
      · exact covers now ordered moment found (by omega) isFound
    rw [seen_of_lt lower]
    cases absent : held.absentSince with
    | none => exact kept
    | some since =>
      by_cases elapsed : downgradeGrace ≤ now - since
      · simp only [if_pos elapsed]
        split at isFound
        · cases isFound
          exact Nat.le_refl _
        · rename_i before
          have below := tracks.below since absent moment found (by omega) isFound
          have current : inForce (samples ++ [(fresh, now)]) now = some fresh := by
            rw [inForce_snoc, if_pos (Nat.le_refl _)]
          have earlier : inForce (samples ++ [(fresh, now)]) moment = some found := by
            rw [inForce_snoc, if_neg before, isFound]
          exact fresh_covers absent elapsed flat current lower (by omega) (by omega) earlier below
      · simp only [if_neg elapsed]
        exact kept

/-- A reader is told a class as high as any of the last grace, where there is no
staircase. -/
theorem reported_covers (covers : Covers samples held) (tracks : Tracks samples held) {t : Nat}
    (ordered : ∀ sample ∈ samples, sample.2 ≤ t) (flat : ¬Staircase (some held) samples t)
    (current : inForce samples t = some fresh) {moment : Nat} {found : Class}
    (recent : t ≤ moment + downgradeGrace) (reached : moment ≤ t)
    (isFound : inForce samples moment = some found) :
    found.rank ≤ (held.reported fresh t).rank := by
  have kept := covers t ordered moment found recent isFound
  unfold reported
  by_cases lower : fresh.rank < held.class.rank
  · rw [if_pos lower]
    cases absent : held.absentSince with
    | none => exact kept
    | some since =>
      by_cases elapsed : downgradeGrace ≤ t - since
      · simp only [if_pos elapsed]
        have below := tracks.below since absent moment found (by
          have positive : 0 < downgradeGrace := by decide
          omega) isFound
        exact fresh_covers absent elapsed flat current lower recent reached isFound below
      · simp only [if_neg elapsed]
        exact kept
  · rw [if_neg lower]
    exact Nat.le_trans kept (Nat.le_of_not_lt lower)

end Held

section Windows

variable [RegexEngine] {Window : Type} [DecidableEq Window]

namespace Desk

variable {desk : Desk Window} {scene : Scene Window} {window : Window} {now : Nat}

omit [RegexEngine] in
theorem held_filter (alive : desk.alive window) :
    (desk.classes.held.filter fun entry => desk.alive entry.1).find? (·.1 = window) =
      desk.classes.held.find? (·.1 = window) := by
  rw [List.find?_filter]
  congr 1
  funext entry
  by_cases same : entry.1 = window
  · simp [same, alive]
  · simp [same]

theorem held_recompute (alive : desk.alive window) :
    (desk.recompute scene window now).held window = some (match desk.held window with
      | none => ⟨(scene.fresh window).class, none⟩
      | some held => held.seen (scene.fresh window).class now) := by
  have kept := held_filter alive
  unfold recompute held
  simp only [kept]
  cases found : desk.classes.held.find? (·.1 = window) with
  | none => simp [kept, found]
  | some entry =>
    simp only
    have same : ∀ entry : Window × Held, decide
        ((entry.1, entry.2.seen (scene.fresh window).class now).1 = window) =
          decide (entry.1 = window) := fun _ => rfl
    rw [find?_modifyFirst
      (fun entry : Window × Held => (entry.1, entry.2.seen (scene.fresh window).class now)) same,
      kept, found]
    rfl

theorem held_recompute_other {other : Window} (alive : desk.alive window)
    (differs : other ≠ window) :
    (desk.recompute scene other now).held window = desk.held window := by
  have kept := held_filter alive
  unfold recompute held
  simp only
  split
  · rw [List.find?_append, kept]
    simp [differs]
  · have apart : ∀ entry : Window × Held, decide (entry.1 = other) → decide (entry.1 = window) = false := by
      intro entry isOther
      exact decide_eq_false (of_decide_eq_true isOther ▸ differs)
    rw [find?_modifyFirst_of_apart
      (fun entry => (entry.1, entry.2.seen (scene.fresh other).class now)) fun entry isOther =>
        ⟨apart entry isOther, apart (_, _) isOther⟩, kept]

/-- What is held of a window that lives, after a history. -/
def Reads (window : Window) (events : List (Event Window × Nat)) : Prop :=
  (after events).alive window → match (after events).held window with
    | none => samples window events = []
    | some held => held.Tracks (samples window events)

/-- No recomputation finds the grace of a staircase run out. -/
def Level (window : Window) (events : List (Event Window × Nat)) : Prop :=
  ∀ before scene now later, events = before ++ (.recompute scene window, now) :: later →
    (after before).alive window →
      ¬Held.Staircase ((after before).held window)
        (samples window (before ++ [(.recompute scene window, now)])) now

/-- No recomputation and no reader finds the grace of a staircase run out. -/
def Gradual (window : Window) (events : List (Event Window × Nat)) : Prop :=
  Level window events ∧ ∀ before later, events = before ++ later → ∀ t, At before later t →
    (after before).alive window →
      ¬Held.Staircase ((after before).held window) (samples window before) t

theorem samples_snoc (window : Window) (past : List (Event Window × Nat))
    (call : Event Window × Nat) :
    samples window (past ++ [call]) = samples window past ++ samples window [call] := by
  rw [samples, List.filterMap_append]
  rfl

theorem samples_recompute (past : List (Event Window × Nat)) :
    samples window (past ++ [(.recompute scene window, now)]) =
      samples window past ++ [((scene.fresh window).class, now)] := by
  rw [samples_snoc]
  simp [samples]

theorem samples_recompute_other {other : Window} (differs : other ≠ window)
    (past : List (Event Window × Nat)) :
    samples window (past ++ [(.recompute scene other, now)]) = samples window past := by
  rw [samples_snoc]
  simp [samples, differs]

theorem samples_destroyed {other : Window} (past : List (Event Window × Nat)) :
    samples window (past ++ [(.destroyed other, now)]) = samples window past := by
  rw [samples_snoc]
  simp [samples]

theorem sample_stamp {events : List (Event Window × Nat)} {sample : Class × Nat}
    (member : sample ∈ samples window events) : ∃ call ∈ events, sample.2 = call.2 := by
  rcases List.mem_filterMap.mp member with ⟨⟨event, stamp⟩, isCall, isSample⟩
  refine ⟨_, isCall, ?_⟩
  rcases event with ⟨scene, other⟩ | other
  · simp only at isSample
    split at isSample
    · cases isSample
      rfl
    · cases isSample
  · cases isSample

theorem after_snoc (past : List (Event Window × Nat)) (call : Event Window × Nat) :
    after (past ++ [call]) = (after past).serve call := by
  rw [after, List.foldl_append]
  rfl

theorem alive_of_snoc {past : List (Event Window × Nat)} {call : Event Window × Nat}
    (alive : (after (past ++ [call])).alive window) : (after past).alive window := by
  rw [after_snoc] at alive
  rcases call with ⟨scene, other⟩ | other
  · exact alive
  · simp only [serve, Desk.alive, List.mem_cons, not_or, decide_eq_true_eq] at alive ⊢
    exact alive.2

theorem held_serve_other {call : Event Window × Nat} (alive : desk.alive window)
    (others : ∀ scene, call.1 ≠ .recompute scene window) :
    (desk.serve call).held window = desk.held window := by
  rcases call with ⟨⟨scene, other⟩ | other, now⟩
  · refine held_recompute_other alive ?_
    rintro rfl
    exact others scene rfl
  · rfl

theorem samples_other {call : Event Window × Nat} (past : List (Event Window × Nat))
    (others : ∀ scene, call.1 ≠ .recompute scene window) :
    samples window (past ++ [call]) = samples window past := by
  rcases call with ⟨⟨scene, other⟩ | other, now⟩
  · refine samples_recompute_other ?_ past
    rintro rfl
    exact others scene rfl
  · exact samples_destroyed past

theorem reads (window : Window) (events : List (Event Window × Nat)) : Reads window events := by
  refine history (fun _ => True) (fun _ _ _ => trivial) (fun _ => rfl) ?_ events trivial
  intro past call _ known alive
  have wasAlive := alive_of_snoc alive
  have known := known wasAlive
  rw [after_snoc]
  by_cases mine : ∃ scene, call.1 = .recompute scene window
  · rcases call with ⟨_, now⟩
    rcases mine with ⟨scene, rfl⟩
    rw [serve, held_recompute wasAlive, samples_recompute]
    cases found : (after past).held window with
    | none =>
      rw [found] at known
      rw [known]
      exact Held.tracks_first
    | some held =>
      rw [found] at known
      exact known.seen _ _
  · have others : ∀ scene, call.1 ≠ .recompute scene window := fun scene same => mine ⟨scene, same⟩
    rw [held_serve_other wasAlive others, samples_other past others]
    exact known

theorem Level.of_snoc {past : List (Event Window × Nat)} {call : Event Window × Nat}
    (level : Level window (past ++ [call])) : Level window past := by
  intro before scene now later split
  exact level before scene now (later ++ [call]) (by rw [split]; simp)

/-- Where no recomputation finds a staircase run out, what is held covers the grace. -/
def Covered (window : Window) (events : List (Event Window × Nat)) : Prop :=
  (after events).alive window → ∀ held, (after events).held window = some held →
    held.Covers (samples window events)

theorem covered {events : List (Event Window × Nat)} (ordered : Ordered events)
    (level : Level window events) : Covered window events := by
  refine history (fun events => Ordered events ∧ Level window events) ?_ (fun _ _ => nofun) ?_
    events ⟨ordered, level⟩
  · rintro past call ⟨ordered, level⟩
    exact ⟨(ordered_snoc.mp ordered).1, level.of_snoc⟩
  · rintro past call ⟨ordered, level⟩ known alive held found
    have wasAlive := alive_of_snoc alive
    have known := known wasAlive
    have tracks := reads window past wasAlive
    rw [after_snoc] at found
    by_cases mine : ∃ scene, call.1 = .recompute scene window
    · rcases call with ⟨_, now⟩
      rcases mine with ⟨scene, rfl⟩
      have flat := level past scene now [] rfl wasAlive
      rw [serve, held_recompute wasAlive] at found
      rw [samples_recompute] at flat ⊢
      cases before : (after past).held window with
      | none =>
        rw [before] at tracks found
        cases found
        rw [tracks]
        exact Held.covers_first
      | some was =>
        rw [before] at tracks found flat
        cases found
        refine (known was before).seen tracks ?_ flat
        intro sample member
        rcases sample_stamp member with ⟨other, isOther, stamp⟩
        rw [stamp]
        exact (ordered_snoc.mp ordered).2 other isOther
    · have others : ∀ scene, call.1 ≠ .recompute scene window := fun scene same => mine ⟨scene, same⟩
      rw [held_serve_other wasAlive others] at found
      rw [samples_other past others]
      exact known held found

theorem graced_of_gradual {events : List (Event Window × Nat)} (ordered : Ordered events)
    (gradual : Gradual window events) : Graced window events := by
  rintro before later rfl t scene atTime current moment found recent reached isFound
  unfold classOf
  by_cases alive : (after before).alive window
  · have orderedBefore : Ordered before := by
      unfold Ordered at ordered ⊢
      exact ordered.sublist ((List.sublist_append_left before later).map _)
    have level : Level window before := by
      intro past scene now others split
      exact gradual.1 past scene now (others ++ later) (by rw [split]; simp)
    have flat := gradual.2 before later rfl t atTime alive
    have tracks := reads window before alive
    have covers := covered orderedBefore level alive
    simp only [alive, Bool.not_true, Bool.false_eq_true, if_false]
    cases held : (after before).held window with
    | none =>
      rw [held] at tracks
      rw [tracks] at isFound
      cases isFound
    | some was =>
      rw [held] at tracks flat
      refine Held.reported_covers (covers was held) tracks ?_ flat current recent reached isFound
      intro sample member
      rcases sample_stamp member with ⟨call, isCall, stamp⟩
      rw [stamp]
      exact atTime.1 call isCall
  · simp only [alive, Bool.not_false, if_true]
    cases found <;> decide

/-- A scene in which no rule applies to any window. -/
def plainScene (default : Class) : Scene Window where
  policyTable := some ⟨default, [], []⟩
  target := fun _ => ⟨none, none, none, none, none, false⟩
  sensitive := fun _ => false
  redactAppId := []

omit [DecidableEq Window] in
theorem fresh_publicScene : ((plainScene .«public»).fresh window).class = .«public» := rfl

theorem gradual_of_graced {events : List (Event Window × Nat)} (ordered : Ordered events)
    (graced : Graced window events) : Gradual window events := by
  constructor
  · rintro before scene now later rfl alive
      ⟨since, held, elapsed, current, moment, recent, reached, isFound⟩
    have split : before ++ (.recompute scene window, now) :: later =
        (before ++ [(.recompute scene window, now)]) ++ later := by simp
    have stillAlive : (after (before ++ [(.recompute scene window, now)])).alive window := by
      rw [after_snoc]
      exact alive
    have isFresh : (scene.fresh window).class = .«public» := by
      rw [samples_recompute, inForce_snoc, if_pos (Nat.le_refl _)] at current
      exact Option.some.inj current
    have told := graced _ later split now scene ?_ (by rw [current, isFresh]) moment _ recent reached
      isFound
    · rw [classOf, after_snoc, serve, held_recompute alive, held, isFresh] at told
      rw [after_snoc, serve] at stillAlive
      simp only [stillAlive] at told
      simp [Held.seen, Held.reported, Class.rank, elapsed] at told
    · constructor
      · intro call member
        rcases List.mem_append.mp member with member | member
        · exact (ordered_snoc.mp ordered.before).2 call member
        · rw [List.mem_singleton.mp member]
      · intro call member
        unfold Ordered at ordered
        rw [List.map_append, List.map_cons, List.pairwise_append] at ordered
        exact (List.pairwise_cons.mp ordered.2.1).1 _ (List.mem_map_of_mem member)
  · rintro before later rfl t atTime alive ⟨since, held, elapsed, current, moment, recent, reached, isFound⟩
    have told := graced before later rfl t (plainScene .«public») atTime (by rw [current, fresh_publicScene])
      moment _ recent reached isFound
    rw [classOf, held, fresh_publicScene] at told
    simp only [alive] at told
    simp [Held.reported, Class.rank, elapsed] at told

/-- The class told covers the grace exactly on histories without a staircase. -/
theorem graced_iff_gradual (window : Window) (events : List (Event Window × Nat))
    (ordered : Ordered events) : Graced window events ↔ Gradual window events :=
  ⟨gradual_of_graced ordered, graced_of_gradual ordered⟩

end Desk

end Windows

namespace Desk

local instance windowEngine : RegexEngine := wordEngine

/-- A window that is secret, private from one second on, and public from 1.4 seconds on. -/
def descent : List (Event Nat × Nat) :=
  [(.recompute (plainScene .secret) 0, 0), (.recompute (plainScene .«private») 0, 1000000000),
    (.recompute (plainScene .«public») 0, 1400000000)]

theorem graced_iff_gradual_descent : Graced 0 descent ↔ Gradual 0 descent :=
  graced_iff_gradual 0 descent (by decide)

/-- At 1.5 seconds the window is told to be public. -/
theorem descent_not_graced : Ordered descent ∧ ¬Graced 0 descent := by
  refine ⟨by decide, ?_⟩
  intro graced
  have told := graced descent [] rfl 1500000000 (plainScene .«public») (by decide) (by decide)
    1300000000 .«private» (by decide) (by decide) (by decide)
  exact absurd told (by decide)

end Desk

end EclipseOS.Abyss.WindowClasses
