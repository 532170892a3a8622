import Mathlib.Algebra.Group.Nat.Defs
import Mathlib.Data.List.Induction
import Mathlib.Data.List.Pairwise
import Mathlib.Order.Basic

/-! # Toplevel generations

A number for what an agent saw of a window. An act names the number it was decided by, and
is refused when the window has another one by then. -/

namespace EclipseOS.Abyss.Generations

/-- What the scene reports of a window and the fingerprint takes in. -/
structure Facts where
  appId : String
  title : String
  x : Int
  y : Int
  w : Int
  h : Int
  workspace : UInt32
  output : UInt32
  states : UInt32
  deriving DecidableEq

/-- Human focus says nothing about what is on the window. -/
def focusedBit : UInt32 := 4

/-- What a window shows: its facts but for focus. -/
def Facts.shown (facts : Facts) : Facts := { facts with states := facts.states &&& ~~~focusedBit }

/-- The standard library's hash of what was fed to it. -/
class DefaultHasher where
  finish : Facts → UInt64

def fingerprint [DefaultHasher] (facts : Facts) : UInt64 := DefaultHasher.finish facts.shown

def maxTracked : Nat := 4096

structure Entry where
  handle : UInt64
  fingerprint : UInt64
  generation : UInt32
  /-- When the fingerprint last changed. -/
  since : Nat
  deriving DecidableEq

/-- The table of generations: the last number given and the windows tracked. -/
structure Table where
  last : UInt32
  entries : List Entry
  deriving DecidableEq

namespace Table

def default : Table := ⟨0, []⟩

/-- The counter wraps, and skips the number that stands for "unchecked". -/
def following (last : UInt32) : UInt32 := max (last + 1) 1

def find (table : Table) (handle : UInt64) : Option Entry :=
  table.entries.find? (·.handle = handle)

/-- The first entry of a handle changes to another. -/
def replaceFirst (handle : UInt64) (entry : Entry) : List Entry → List Entry
  | [] => []
  | head :: rest =>
    if head.handle = handle then entry :: rest else head :: replaceFirst handle entry rest

/-- The generation of a window whose facts hash to `fingerprint` now, and when it last
changed. -/
def observe (table : Table) (handle fingerprint : UInt64) (now : Nat) :
    (UInt32 × Nat) × Table :=
  match table.find handle with
  | some e =>
    if e.fingerprint ≠ fingerprint then
      let last := following table.last
      let entry := { e with fingerprint, generation := last, since := now }
      ((last, now), ⟨last, replaceFirst handle entry table.entries⟩)
    else
      ((e.generation, e.since), table)
  | none =>
    let kept :=
      if maxTracked ≤ table.entries.length then table.entries.drop 1 else table.entries
    let last := following table.last
    ((last, now), ⟨last, kept ++ [⟨handle, fingerprint, last, now⟩]⟩)

def forget (table : Table) (handle : UInt64) : Table :=
  { table with entries := table.entries.filter (·.handle ≠ handle) }

/-- A number is given unless the window is known with this fingerprint. -/
def gives (table : Table) (handle fingerprint : UInt64) : Bool :=
  (table.find handle).all (·.fingerprint ≠ fingerprint)

variable {table : Table} {handle fingerprint : UInt64}

theorem find_spec {e : Entry} (found : table.find handle = some e) :
    e ∈ table.entries ∧ e.handle = handle := by
  have named := List.find?_some found
  exact ⟨List.mem_of_find?_eq_some found, by simpa using named⟩

theorem mem_replaceFirst {entry other : Entry} {entries : List Entry}
    (member : other ∈ replaceFirst handle entry entries) : other = entry ∨ other ∈ entries := by
  induction entries with
  | nil => exact absurd member List.not_mem_nil
  | cons head rest induction =>
    rw [replaceFirst] at member
    split at member
    · rcases List.mem_cons.mp member with same | inRest
      · exact Or.inl same
      · exact Or.inr (List.mem_cons_of_mem _ inRest)
    · rcases List.mem_cons.mp member with same | inRest
      · exact Or.inr (List.mem_cons.mpr (Or.inl same))
      · rcases induction inRest with same | inRest
        · exact Or.inl same
        · exact Or.inr (List.mem_cons_of_mem _ inRest)

theorem observe_known (now : Nat) (known : table.gives handle fingerprint = false) :
    (table.observe handle fingerprint now).2 = table ∧
      ∃ e ∈ table.entries, e.handle = handle ∧ e.fingerprint = fingerprint ∧
        (table.observe handle fingerprint now).1.1 = e.generation := by
  rw [gives] at known
  cases found : table.find handle with
  | none =>
    rw [found] at known
    cases known
  | some e =>
    rw [found, Option.all_some, decide_eq_false_iff_not, not_not] at known
    obtain ⟨member, named⟩ := find_spec found
    have answered : table.observe handle fingerprint now = ((e.generation, e.since), table) := by
      rw [observe, found]
      exact if_neg (fun differs => differs known)
    rw [answered]
    exact ⟨rfl, e, member, named, known, rfl⟩

structure Given (table : Table) (handle fingerprint : UInt64) (answer : (UInt32 × Nat) × Table) :
    Prop where
  number : answer.1.1 = following table.last
  last : answer.2.last = following table.last
  entries : ∀ e ∈ answer.2.entries, e ∈ table.entries ∨
    e.handle = handle ∧ e.fingerprint = fingerprint ∧ e.generation = following table.last

theorem observe_given (now : Nat) (gives : table.gives handle fingerprint = true) :
    Given table handle fingerprint (table.observe handle fingerprint now) := by
  rw [Table.gives] at gives
  cases found : table.find handle with
  | none =>
    rw [observe, found]
    refine ⟨rfl, rfl, fun e member => ?_⟩
    rcases List.mem_append.mp member with kept | added
    · split at kept
      · exact Or.inl (List.mem_of_mem_drop kept)
      · exact Or.inl kept
    · cases List.mem_singleton.mp added
      exact Or.inr ⟨rfl, rfl, rfl⟩
  | some e =>
    rw [found, Option.all_some, decide_eq_true_eq] at gives
    obtain ⟨_, named⟩ := find_spec found
    have answered : table.observe handle fingerprint now =
        ((following table.last, now), ⟨following table.last, replaceFirst handle
          { e with fingerprint, generation := following table.last, since := now }
          table.entries⟩) := by
      rw [observe, found]
      exact if_pos gives
    rw [answered]
    refine ⟨rfl, rfl, fun other member => ?_⟩
    rcases mem_replaceFirst member with rfl | kept
    · exact Or.inr ⟨named, rfl, rfl⟩
    · exact Or.inl kept

theorem following_toNat {last : UInt32} (room : last ≠ 0xFFFFFFFF) :
    (following last).toNat = last.toNat + 1 := by
  have bound := last.toNat_lt
  have below : last.toNat ≠ 0xFFFFFFFF := fun same => room (UInt32.toNat_inj.mp same)
  have one : (1 : UInt32).toNat = 1 := rfl
  have next : (last + 1).toNat = last.toNat + 1 := by
    rw [UInt32.toNat_add]
    exact Nat.mod_eq_of_lt (by omega)
  by_cases low : last + 1 ≤ 1
  · have first : following last = 1 := if_pos low
    rw [UInt32.le_iff_toNat_le, next] at low
    rw [first]
    omega
  · have successor : following last = last + 1 := if_neg low
    rw [successor, next]

end Table

/-! ## Answers -/

structure Answer where
  handle : UInt64
  content : Facts
  generation : UInt32
  /-- The number was given by this look. -/
  given : Bool
  deriving DecidableEq

/-- A number stands for one content of one window. -/
def OneContent (answers : List Answer) : Prop :=
  ∀ left ∈ answers, ∀ right ∈ answers, left.generation = right.generation →
    left.handle = right.handle ∧ left.content = right.content

def numbers (answers : List Answer) : List UInt32 :=
  (answers.filter (·.given)).map (·.generation)

theorem numbers_append (answers others : List Answer) :
    numbers (answers ++ others) = numbers answers ++ numbers others := by
  rw [numbers, List.filter_append, List.map_append]
  rfl

/-- The counter stands at the last number given. -/
structure Rising (past : List Answer) (table : Table) : Prop where
  le : ∀ number ∈ numbers past, number.toNat ≤ table.last.toNat
  last : table.last = 0 ∨ table.last ∈ numbers past
  increasing : (numbers past).Pairwise (· < ·)

namespace Rising

variable {past : List Answer} {table after : Table} {answer : Answer}

theorem default : Rising [] Table.default :=
  ⟨fun _ member => absurd member List.not_mem_nil, Or.inl rfl, List.Pairwise.nil⟩

theorem known (rising : Rising past table) (known : answer.given = false) :
    Rising (past ++ [answer]) table := by
  have same : numbers (past ++ [answer]) = numbers past := by simp [numbers, known]
  exact ⟨same ▸ rising.le, same ▸ rising.last, same ▸ rising.increasing⟩

theorem numbers_given (given : answer.given = true) :
    numbers (past ++ [answer]) = numbers past ++ [answer.generation] := by
  simp [numbers, given]

theorem given_iff (rising : Rising past table) (given : answer.given = true)
    (number : answer.generation = Table.following table.last) :
    (numbers (past ++ [answer])).Pairwise (· < ·) ↔ table.last ≠ 0xFFFFFFFF := by
  rw [numbers_given given]
  constructor
  · intro increasing full
    have wraps : Table.following 0xFFFFFFFF = 1 := rfl
    rcases rising.last with zero | member
    · rw [zero] at full
      cases full
    · have below := (List.pairwise_append.mp increasing).2.2 _ member _ (List.mem_singleton_self _)
      rw [number, full, wraps] at below
      exact absurd below (by decide)
  · intro room
    apply List.pairwise_append.mpr
    refine ⟨rising.increasing, List.pairwise_singleton _ _, fun earlier member later isNew => ?_⟩
    have below := rising.le earlier member
    rw [List.mem_singleton.mp isNew, UInt32.lt_iff_toNat_lt, number, Table.following_toNat room]
    omega

theorem given (rising : Rising past table) (room : table.last ≠ 0xFFFFFFFF)
    (given : answer.given = true) (number : answer.generation = Table.following table.last)
    (last : after.last = Table.following table.last) : Rising (past ++ [answer]) after := by
  have next := Table.following_toNat room
  constructor
  · intro earlier member
    rw [last, next]
    rw [numbers_given given] at member
    rcases List.mem_append.mp member with old | new
    · have below := rising.le earlier old
      omega
    · have latest := List.mem_singleton.mp new
      rw [latest, number]
      exact Nat.le_of_eq next
  · rw [last, numbers_given given, number]
    exact Or.inr (List.mem_append_right _ (List.mem_singleton_self _))
  · exact (rising.given_iff given number).mpr room

end Rising

/-! ## Runs -/

inductive Event where
  | observe (handle : UInt64) (facts : Facts) (now : Nat)
  | forget (handle : UInt64)
  deriving DecidableEq

def contents (events : List Event) : List Facts :=
  events.filterMap fun
    | .observe _ facts _ => some facts.shown
    | .forget _ => none

section Runs

variable [DefaultHasher]

def answers (table : Table) : List Event → List Answer
  | [] => []
  | .observe handle facts now :: rest =>
    let answer := table.observe handle (fingerprint facts) now
    ⟨handle, facts.shown, answer.1.1, table.gives handle (fingerprint facts)⟩ ::
      answers answer.2 rest
  | .forget handle :: rest => answers (table.forget handle) rest

theorem answers_observe {table : Table} {handle : UInt64} {facts : Facts} {now : Nat}
    {rest : List Event} :
    answers table (.observe handle facts now :: rest) =
      ⟨handle, facts.shown, (table.observe handle (fingerprint facts) now).1.1,
        table.gives handle (fingerprint facts)⟩ ::
          answers (table.observe handle (fingerprint facts) now).2 rest := rfl

/-- The counter is not at its end when a number is given. -/
def Room (table : Table) : List Event → Prop
  | [] => True
  | .observe handle facts now :: rest =>
    (table.gives handle (fingerprint facts) = true → table.last ≠ 0xFFFFFFFF) ∧
      Room (table.observe handle (fingerprint facts) now).2 rest
  | .forget handle :: rest => Room (table.forget handle) rest

/-- No two of the contents have one fingerprint. -/
def Distinct (contents : List Facts) : Prop :=
  ∀ left ∈ contents, ∀ right ∈ contents,
    DefaultHasher.finish left = DefaultHasher.finish right → left = right

theorem Rising.run {past : List Answer} {table : Table} {events : List Event}
    (rising : Rising past table) :
    (numbers (past ++ answers table events)).Pairwise (· < ·) ↔ Room table events := by
  induction events generalizing past table with
  | nil =>
    rw [answers, List.append_nil]
    exact ⟨fun _ => trivial, fun _ => rising.increasing⟩
  | cons event rest induction =>
    cases event with
    | forget handle => exact induction ⟨rising.le, rising.last, rising.increasing⟩
    | observe handle facts now =>
      rw [answers_observe, Room, ← List.singleton_append, ← List.append_assoc]
      cases gives : table.gives handle (fingerprint facts) with
      | false =>
        rw [(Table.observe_known now gives).1, induction (rising.known rfl)]
        exact ⟨fun room => ⟨fun given => (by cases given), room⟩, fun room => room.2⟩
      | true =>
        have spec := Table.observe_given now gives
        constructor
        · intro increasing
          have here := increasing
          rw [numbers_append] at here
          have room := (rising.given_iff rfl spec.number).mp (List.pairwise_append.mp here).1
          exact ⟨fun _ => room,
            (induction (rising.given room rfl spec.number spec.last)).mp increasing⟩
        · intro ⟨room, later⟩
          exact (induction (rising.given (room rfl) rfl spec.number spec.last)).mpr later

/-- What the answers so far and the table they leave have to do with each other. -/
structure Fresh (past : List Answer) (table : Table) : Prop where
  entries : ∀ e ∈ table.entries, ∃ answer ∈ past, answer.handle = e.handle ∧
    DefaultHasher.finish answer.content = e.fingerprint ∧ answer.generation = e.generation
  last : ∀ answer ∈ past, answer.generation.toNat ≤ table.last.toNat
  one : OneContent past

namespace Fresh

variable {past : List Answer} {table : Table} {handle : UInt64} {facts : Facts}

theorem default : Fresh [] Table.default :=
  ⟨fun _ member => absurd member List.not_mem_nil, fun _ member => absurd member List.not_mem_nil,
    fun _ member => absurd member List.not_mem_nil⟩

theorem forget (fresh : Fresh past table) : Fresh past (table.forget handle) where
  entries := fun e member => fresh.entries e (List.mem_filter.mp member).1
  last := fresh.last
  one := fresh.one

theorem known (fresh : Fresh past table) {generation : UInt32}
    (distinct : ∀ answer ∈ past,
      DefaultHasher.finish answer.content = fingerprint facts → answer.content = facts.shown)
    (repeated : ∃ answer ∈ past, answer.handle = handle ∧
      DefaultHasher.finish answer.content = fingerprint facts ∧
      answer.generation = generation) :
    Fresh (past ++ [⟨handle, facts.shown, generation, false⟩]) table := by
  obtain ⟨origin, inPast, named, hashed, numbered⟩ := repeated
  have shown := distinct origin inPast hashed
  have covered : ∀ answer ∈ past ++ [⟨handle, facts.shown, generation, false⟩],
      ∃ old ∈ past, old.handle = answer.handle ∧ old.content = answer.content ∧
        old.generation = answer.generation := by
    intro answer member
    rcases List.mem_append.mp member with old | new
    · exact ⟨answer, old, rfl, rfl, rfl⟩
    · cases List.mem_singleton.mp new
      exact ⟨origin, inPast, named, shown, numbered⟩
  refine ⟨fun e member => ?_, fun answer member => ?_, fun left member right member' same => ?_⟩
  · obtain ⟨answer, inPast, facts⟩ := fresh.entries e member
    exact ⟨answer, List.mem_append_left _ inPast, facts⟩
  · obtain ⟨old, inPast, _, _, number⟩ := covered answer member
    rw [← number]
    exact fresh.last old inPast
  · obtain ⟨first, inPast, firstHandle, firstContent, firstNumber⟩ := covered left member
    obtain ⟨second, inPast', secondHandle, secondContent, secondNumber⟩ := covered right member'
    rw [← firstHandle, ← firstContent, ← secondHandle, ← secondContent]
    apply fresh.one first inPast second inPast'
    rw [firstNumber, secondNumber, same]

theorem given (fresh : Fresh past table) {answer : (UInt32 × Nat) × Table}
    (given : Table.Given table handle (fingerprint facts) answer)
    (room : table.last ≠ 0xFFFFFFFF) :
    Fresh (past ++ [⟨handle, facts.shown, answer.1.1, true⟩]) answer.2 := by
  have next := Table.following_toNat room
  have number : answer.1.1.toNat = table.last.toNat + 1 := by rw [given.number, next]
  have last : answer.2.last.toNat = table.last.toNat + 1 := by rw [given.last, next]
  have above : ∀ old ∈ past, old.generation.toNat < answer.1.1.toNat := by
    intro old member
    have below := fresh.last old member
    omega
  refine ⟨fun e member => ?_, fun other member => ?_, fun left member right member' same => ?_⟩
  · rcases given.entries e member with old | ⟨named, hashed, numbered⟩
    · obtain ⟨origin, inPast, facts⟩ := fresh.entries e old
      exact ⟨origin, List.mem_append_left _ inPast, facts⟩
    · refine ⟨_, List.mem_append_right _ (List.mem_singleton_self _), named.symm, hashed.symm, ?_⟩
      rw [given.number, numbered]
  · rcases List.mem_append.mp member with old | new
    · have below := above other old
      omega
    · cases List.mem_singleton.mp new
      simp only
      omega
  · rcases List.mem_append.mp member with old | new <;>
      rcases List.mem_append.mp member' with old' | new'
    · exact fresh.one left old right old' same
    · cases List.mem_singleton.mp new'
      have below := above left old
      rw [same] at below
      exact absurd below (Nat.lt_irrefl _)
    · cases List.mem_singleton.mp new
      have below := above right old'
      rw [← same] at below
      exact absurd below (Nat.lt_irrefl _)
    · cases List.mem_singleton.mp new
      cases List.mem_singleton.mp new'
      exact ⟨rfl, rfl⟩

theorem observe (fresh : Fresh past table) (now : Nat)
    (room : table.gives handle (fingerprint facts) = true → table.last ≠ 0xFFFFFFFF)
    (distinct : ∀ answer ∈ past,
      DefaultHasher.finish answer.content = fingerprint facts → answer.content = facts.shown) :
    Fresh (past ++ [⟨handle, facts.shown, (table.observe handle (fingerprint facts) now).1.1,
      table.gives handle (fingerprint facts)⟩])
      (table.observe handle (fingerprint facts) now).2 := by
  cases gives : table.gives handle (fingerprint facts) with
  | true => exact fresh.given (Table.observe_given now gives) (room gives)
  | false =>
    obtain ⟨same, e, member, named, hashed, numbered⟩ :=
      Table.observe_known now gives
    obtain ⟨origin, inPast, handles, fingerprints, generations⟩ := fresh.entries e member
    rw [same]
    apply fresh.known distinct
    refine ⟨origin, inPast, handles.trans named, fingerprints.trans hashed, ?_⟩
    rw [generations, numbered]

theorem run {events : List Event} (fresh : Fresh past table) (room : Room table events)
    (distinct : Distinct (past.map (·.content) ++ contents events)) :
    OneContent (past ++ answers table events) := by
  induction events generalizing past table with
  | nil =>
    rw [answers, List.append_nil]
    exact fresh.one
  | cons event rest induction =>
    cases event with
    | forget handle => exact induction fresh.forget room distinct
    | observe handle facts now =>
      obtain ⟨here, later⟩ := room
      have distinctHere : ∀ answer ∈ past,
          DefaultHasher.finish answer.content = fingerprint facts →
          answer.content = facts.shown := by
        intro answer member
        apply distinct
        · exact List.mem_append_left _ (List.mem_map_of_mem member)
        · exact List.mem_append_right _ List.mem_cons_self
      have step := fresh.observe now here distinctHere
      have rest := induction step later (by
        rw [List.map_append, List.append_assoc]
        exact distinct)
      rw [List.append_assoc] at rest
      exact rest

end Fresh

end Runs

def titled (title : String) : Facts := ⟨"org.example.term", title, 0, 0, 800, 600, 1, 1, 0⟩

@[reducible] def titleLength : DefaultHasher := ⟨fun facts => UInt64.ofNat facts.title.length⟩

/-- The numbers given increase exactly while the counter has room, and then each stands
for one content, unless two contents of the run have one fingerprint. -/
theorem generations_fresh [DefaultHasher] (events : List Event) :
    ((numbers (answers Table.default events)).Pairwise (· < ·) ↔ Room Table.default events) ∧
    (Room Table.default events → Distinct (contents events) →
      OneContent (answers Table.default events)) :=
  ⟨Rising.default.run, fun room distinct => Fresh.default.run room distinct⟩

theorem generations_fresh_title :
    (numbers (@answers titleLength Table.default
      [.observe 1 (titled "") 0, .observe 1 (titled "a") 5, .forget 1,
        .observe 1 (titled "a") 6])).Pairwise (· < ·) ∧
    OneContent (@answers titleLength Table.default
      [.observe 1 (titled "") 0, .observe 1 (titled "a") 5, .forget 1,
        .observe 1 (titled "a") 6]) := by
  obtain ⟨increasing, one⟩ := @generations_fresh titleLength
    [.observe 1 (titled "") 0, .observe 1 (titled "a") 5, .forget 1, .observe 1 (titled "a") 6]
  have rises : (numbers (@answers titleLength Table.default
      [.observe 1 (titled "") 0, .observe 1 (titled "a") 5, .forget 1,
        .observe 1 (titled "a") 6])).Pairwise (· < ·) := by
    decide
  refine ⟨rises, one (increasing.mp rises) ?_⟩
  unfold Distinct
  decide

/-! ## The end of the counter -/

namespace Wrap

def titles : Nat → List Event
  | 0 => []
  | times + 1 => .observe 1 (titled "") 0 :: .observe 1 (titled "a") 0 :: titles times

/-- The table while the window has a title of that length. -/
def tracking (last : UInt32) (length : UInt64) : Table := ⟨last, [⟨1, length, last, 0⟩]⟩

theorem observe_tracking (last : UInt32) {length other : UInt64} (differs : length ≠ other) :
    (tracking last length).observe 1 other 0 =
      ((Table.following last, 0), tracking (Table.following last) other) := by
  have found : (tracking last length).find 1 = some ⟨1, length, last, 0⟩ := rfl
  rw [Table.observe, found]
  exact if_pos differs

theorem gives_tracking (last : UInt32) {length other : UInt64} (differs : length ≠ other) :
    (tracking last length).gives 1 other = true := by
  have found : (tracking last length).find 1 = some ⟨1, length, last, 0⟩ := rfl
  rw [Table.gives, found, Option.all_some]
  exact decide_eq_true differs

theorem answers_titles (last : UInt32) (times : Nat) :
    @answers titleLength (tracking last 1) (titles (times + 1)) =
      ⟨1, titled "", Table.following last, true⟩ ::
        ⟨1, titled "a", Table.following (Table.following last), true⟩ ::
          @answers titleLength (tracking (Table.following (Table.following last)) 1)
            (titles times) := by
  have without : @fingerprint titleLength (titled "") = 0 := rfl
  have named : @fingerprint titleLength (titled "a") = 1 := rfl
  rw [titles, @answers_observe titleLength, @answers_observe titleLength, without, named,
    observe_tracking last (by decide), observe_tracking _ (by decide),
    gives_tracking last (by decide), gives_tracking _ (by decide)]
  rfl

theorem first_again (times : Nat) (last : UInt32)
    (toEnd : last.toNat + 2 * (times + 1) = 2 ^ 32) :
    ⟨1, titled "a", 1, true⟩ ∈ @answers titleLength (tracking last 1) (titles (times + 1)) := by
  induction times generalizing last with
  | zero =>
    have full : last = 0xFFFFFFFE := by
      apply UInt32.toNat_inj.mp
      have value : (0xFFFFFFFE : UInt32).toNat = 2 ^ 32 - 2 := rfl
      omega
    rw [answers_titles, full]
    exact List.mem_cons_of_mem _ List.mem_cons_self
  | succ times induction =>
    have room (number : UInt32) (below : number.toNat < 2 ^ 32 - 1) : number ≠ 0xFFFFFFFF := by
      intro full
      rw [full] at below
      exact absurd below (by decide)
    have next := Table.following_toNat (room last (by omega))
    have second := Table.following_toNat
      (room (Table.following last) (by omega))
    rw [answers_titles]
    exact List.mem_cons_of_mem _ (List.mem_cons_of_mem _ (induction _ (by omega)))

/-- The number of the window's first content is given for its second one too. -/
theorem first_number_given_twice :
    ¬OneContent (@answers titleLength Table.default (titles (2 ^ 31))) := by
  have pairs : (2 : Nat) ^ 31 = (2 ^ 31 - 2) + 1 + 1 := rfl
  have start : @answers titleLength Table.default (titles (2 ^ 31)) =
      ⟨1, titled "", 1, true⟩ :: ⟨1, titled "a", 2, true⟩ ::
        @answers titleLength (tracking 2 1) (titles (2 ^ 31 - 2 + 1)) := by
    rw [pairs]
    rfl
  have again := first_again (2 ^ 31 - 2) 2 rfl
  rw [start]
  intro one
  have same := one _ List.mem_cons_self _
    (List.mem_cons_of_mem _ (List.mem_cons_of_mem _ again)) rfl
  exact absurd same.2 (by decide)

end Wrap

end EclipseOS.Abyss.Generations
