import Mathlib.Data.List.Basic

/-! # Patterns

What a pattern of characters, anchors, alternatives and repetitions spans in a
text, as a relation and as a search that can be run. -/

namespace EclipseOS.Foundation

inductive Pattern where
  | empty
  | char (holds : Char → Bool)
  | start
  | stop
  | seq (first second : Pattern)
  | alt (left right : Pattern)
  | star (body : Pattern)

namespace Pattern

/-- What a pattern spans, from one position of the text to another. -/
inductive Spans (text : List Char) : Pattern → Nat → Nat → Prop where
  | empty {i : Nat} : Spans text .empty i i
  | char {holds : Char → Bool} {i : Nat} {found : Char} (there : text[i]? = some found)
      (held : holds found = true) : Spans text (.char holds) i (i + 1)
  | start : Spans text .start 0 0
  | stop : Spans text .stop text.length text.length
  | seq {first second : Pattern} {i j k : Nat} (before : Spans text first i j)
      (after : Spans text second j k) : Spans text (.seq first second) i k
  | left {left right : Pattern} {i j : Nat} (spans : Spans text left i j) :
      Spans text (.alt left right) i j
  | right {left right : Pattern} {i j : Nat} (spans : Spans text right i j) :
      Spans text (.alt left right) i j
  | done {body : Pattern} {i : Nat} : Spans text (.star body) i i
  | more {body : Pattern} {i j k : Nat} (once : Spans text body i j)
      (again : Spans text (.star body) j k) : Spans text (.star body) i k

def Whole (text : List Char) (pattern : Pattern) : Prop := Spans text pattern 0 text.length

/-- Repetitions that move on, at most `fuel` of them. -/
def repeatEnds (next : Nat → List Nat) : Nat → Nat → List Nat
  | 0, i => [i]
  | fuel + 1, i => i :: ((next i).filter (i < ·)).flatMap (repeatEnds next fuel)

/-- Where the spans of a pattern end that begin at a position. -/
def ends (text : List Char) : Pattern → Nat → List Nat
  | .empty, i => [i]
  | .char holds, i => if text[i]?.any holds then [i + 1] else []
  | .start, i => if i = 0 then [i] else []
  | .stop, i => if i = text.length then [i] else []
  | .seq first second, i => (ends text first i).flatMap (ends text second)
  | .alt left right, i => ends text left i ++ ends text right i
  | .star body, i => repeatEnds (ends text body) (text.length - i) i

def search (text : List Char) (pattern : Pattern) : Bool :=
  (List.range (text.length + 1)).any fun i => !(ends text pattern i).isEmpty

variable {text : List Char} {pattern : Pattern} {i j : Nat}

theorem Spans.eq_or_lt (spans : Spans text pattern i j) : i = j ∨ i < j ∧ j ≤ text.length := by
  induction spans with
  | empty => exact Or.inl rfl
  | char there _ =>
    have inside := (List.getElem?_eq_some_iff.mp there).1
    exact Or.inr ⟨Nat.lt_succ_self _, inside⟩
  | start => exact Or.inl rfl
  | stop => exact Or.inl rfl
  | seq _ _ before after => omega
  | left _ induction => exact induction
  | right _ induction => exact induction
  | done => exact Or.inl rfl
  | more _ _ once again => omega

theorem mem_repeatEnds_iff {body : Pattern} {next : Nat → List Nat}
    (exactly : ∀ i j, j ∈ next i ↔ Spans text body i j) {fuel : Nat}
    (enough : text.length - i ≤ fuel) :
    j ∈ repeatEnds next fuel i ↔ Spans text (.star body) i j := by
  constructor
  · intro member
    induction fuel generalizing i with
    | zero =>
      cases List.mem_singleton.mp member
      exact .done
    | succ fuel induction =>
      rcases List.mem_cons.mp member with rfl | later
      · exact .done
      · obtain ⟨middle, found, rest⟩ := List.mem_flatMap.mp later
        obtain ⟨once, moved⟩ := List.mem_filter.mp found
        rw [decide_eq_true_eq] at moved
        exact .more ((exactly _ _).mp once) (induction (by omega) rest)
  · intro spans
    generalize isStar : Pattern.star body = pattern at spans
    induction spans generalizing fuel with
    | done =>
      cases fuel with
      | zero => exact List.mem_singleton_self _
      | succ fuel => exact List.mem_cons_self
    | @more other i middle j once again _ induction =>
      cases isStar
      rcases once.eq_or_lt with rfl | ⟨moved, inside⟩
      · exact induction enough rfl
      · obtain ⟨less, rfl⟩ : ∃ less, fuel = less + 1 := Nat.exists_eq_succ_of_ne_zero (by omega)
        apply List.mem_cons_of_mem
        refine List.mem_flatMap.mpr ⟨middle, ?_, induction (by omega) rfl⟩
        exact List.mem_filter.mpr ⟨(exactly _ _).mpr once, decide_eq_true moved⟩
    | _ => cases isStar

theorem mem_ends_iff : j ∈ ends text pattern i ↔ Spans text pattern i j := by
  induction pattern generalizing i j with
  | empty =>
    rw [ends, List.mem_singleton]
    constructor
    · intro same
      exact same ▸ .empty
    · intro spans
      cases spans
      rfl
  | char holds =>
    rw [ends]
    constructor
    · intro member
      split at member
      · rename_i held
        cases List.mem_singleton.mp member
        cases there : text[i]? with
        | none => simp [there] at held
        | some found => exact .char there (by simpa [there] using held)
      · cases member
    · intro spans
      cases spans with
      | char there held => simp [there, held]
  | start =>
    rw [ends]
    constructor
    · intro member
      split at member
      · rename_i first
        cases List.mem_singleton.mp member
        exact first ▸ .start
      · cases member
    · intro spans
      cases spans
      simp
  | stop =>
    rw [ends]
    constructor
    · intro member
      split at member
      · rename_i last
        cases List.mem_singleton.mp member
        exact last ▸ .stop
      · cases member
    · intro spans
      cases spans
      simp
  | seq first second before after =>
    rw [ends, List.mem_flatMap]
    constructor
    · intro ⟨middle, found, rest⟩
      exact .seq (before.mp found) (after.mp rest)
    · intro spans
      cases spans with
      | seq found rest => exact ⟨_, before.mpr found, after.mpr rest⟩
  | alt left right onLeft onRight =>
    rw [ends, List.mem_append, onLeft, onRight]
    constructor
    · intro either
      exact either.elim .left .right
    · intro spans
      cases spans with
      | left spans => exact Or.inl spans
      | right spans => exact Or.inr spans
  | star body induction =>
    exact mem_repeatEnds_iff (fun _ _ => induction) (Nat.le_refl _)

theorem search_iff :
    search text pattern = true ↔ ∃ i ≤ text.length, ∃ j, Spans text pattern i j := by
  simp only [search, List.any_eq_true, List.mem_range, Nat.lt_succ_iff, Bool.not_eq_true',
    List.isEmpty_eq_false_iff_exists_mem, mem_ends_iff]

theorem search_anchored :
    search text (.seq .start (.seq pattern (.seq .stop .empty))) = true ↔
      Whole text pattern := by
  rw [search_iff]
  constructor
  · intro ⟨i, _, j, spans⟩
    cases spans with
    | seq begins rest =>
      cases begins
      cases rest with
      | seq found rest =>
        cases rest with
        | seq ends last =>
          cases ends
          exact found
  · intro whole
    exact ⟨0, Nat.zero_le _, text.length, .seq .start (.seq whole (.seq .stop .empty))⟩

end Pattern

end EclipseOS.Foundation
