import EclipseOS.Policyd.Tasks.Store

/-! # Capability lines

The grammar of a grant scope on the link: one line a capability, words between
spaces. What is written as such lines reads back as the same capabilities. -/

namespace EclipseOS.Policyd

open Foundation PolicyEval

/-- The line of a capability: `<name> <scope> <scope>...`. -/
def grantLine (name : String) (scopes : List String) : String :=
  scopes.foldl (fun line scope => line ++ " " ++ scope) name

def IsWord (text : String) : Prop := text ≠ "" ∧ ∀ char ∈ text.toList, isWhitespace char = false

instance (text : String) : Decidable (IsWord text) :=
  decidable_of_iff (text ≠ "" ∧ text.toList.all (!isWhitespace ·)) (by simp [IsWord])

theorem grantLine_toList (name : String) (scopes : List String) :
    (grantLine name scopes).toList =
      name.toList ++ scopes.flatMap fun scope => ' ' :: scope.toList := by
  induction scopes generalizing name with
  | nil => simp [grantLine]
  | cons scope scopes induction =>
    have rest := induction (name ++ " " ++ scope)
    simp only [grantLine, List.foldl_cons] at rest ⊢
    rw [rest]
    simp

section Words

variable {name : String} {scopes : List String}

theorem splitWhitespace_cons {word : String} (isWord : IsWord word) (rest : List Char) :
    splitWhitespace (word.toList ++ ' ' :: rest) = word :: splitWhitespace rest := by
  rw [splitWhitespace, List.splitOnP_append_cons_of_forall_mem isWord.2 ' ' (by decide),
    List.filter_cons_of_pos (by simpa using isWord.1), List.map_cons, String.ofList_toList]
  rfl

theorem splitWhitespace_word {word : String} (isWord : IsWord word) :
    splitWhitespace word.toList = [word] := by
  rw [splitWhitespace, List.splitOnP_eq_singleton isWord.2,
    List.filter_cons_of_pos (by simpa using isWord.1)]
  simp

theorem splitWhitespace_grantLine (nameWord : IsWord name) (words : ∀ scope ∈ scopes, IsWord scope) :
    splitWhitespace (grantLine name scopes).toList = name :: scopes := by
  rw [grantLine_toList]
  induction scopes generalizing name with
  | nil =>
    rw [List.flatMap_nil, List.append_nil]
    exact splitWhitespace_word nameWord
  | cons scope scopes induction =>
    rw [List.flatMap_cons, List.cons_append, splitWhitespace_cons nameWord,
      induction (words scope List.mem_cons_self)
        fun other member => words other (List.mem_cons_of_mem _ member)]

theorem not_whitespace_of_mem_splitOnP {line piece : List Char}
    (member : piece ∈ line.splitOnP isWhitespace) : ∀ char ∈ piece, isWhitespace char = false := by
  induction line generalizing piece with
  | nil =>
    rw [List.splitOnP_nil, List.mem_singleton] at member
    subst member
    exact nofun
  | cons first line induction =>
    rw [List.splitOnP_cons_eq_if_modifyHead] at member
    split at member
    · rcases List.mem_cons.mp member with rfl | member
      · exact nofun
      · exact induction member
    · rename_i plain
      cases pieces : line.splitOnP isWhitespace with
      | nil => exact absurd pieces (List.splitOnP_ne_nil _ _)
      | cons head pieces' =>
        rw [pieces] at member induction
        rcases List.mem_cons.mp member with rfl | member
        · intro char inPiece
          rcases List.mem_cons.mp inPiece with rfl | inHead
          · exact Bool.not_eq_true _ ▸ plain
          · exact induction List.mem_cons_self char inHead
        · exact induction (List.mem_cons_of_mem _ member)

theorem isWord_of_mem_splitWhitespace {line : List Char} {word : String}
    (member : word ∈ splitWhitespace line) : IsWord word := by
  rcases List.mem_map.mp member with ⟨piece, kept, rfl⟩
  rcases List.mem_filter.mp kept with ⟨found, notEmpty⟩
  refine ⟨fun empty => ?_, by simpa using not_whitespace_of_mem_splitOnP found⟩
  simp_all

end Words

/-! ## Lines -/

/-- A line's text: not empty and without line ends. -/
structure IsLine (line : List Char) : Prop where
  notEmpty : line ≠ []
  newline : '\n' ∉ line
  return_ : '\r' ∉ line

theorem lines_append {line before : List Char} (newline : '\n' ∉ line) (return_ : '\r' ∉ line)
    (returnBefore : '\r' ∉ before) (rest : List Char) :
    lines before (line ++ '\n' :: rest) = (before.reverse ++ line) :: lines [] rest := by
  induction line generalizing before with
  | nil =>
    rw [List.nil_append, List.append_nil]
    cases before with
    | nil => rfl
    | cons last before =>
      have other : last ≠ '\r' := fun same => returnBefore (same ▸ List.mem_cons_self)
      rw [lines]
      exact fun _ same => other (List.cons.inj same).1
  | cons first line induction =>
    rw [List.mem_cons, not_or] at newline return_
    have kept : '\r' ∉ first :: before := by
      rw [List.mem_cons, not_or]
      exact ⟨return_.1, returnBefore⟩
    rw [List.cons_append, lines, induction newline.2 return_.2 kept]
    · simp
    · exact fun same => newline.1 same.symm

theorem lines_last {line before : List Char} (newline : '\n' ∉ line)
    (some : before ≠ [] ∨ line ≠ []) : lines before line = [before.reverse ++ line] := by
  induction line generalizing before with
  | nil =>
    have notEmpty : before ≠ [] := some.resolve_right (not_not.mpr rfl)
    cases before with
    | nil => exact absurd rfl notEmpty
    | cons last before =>
      rw [lines, List.append_nil]
      exact notEmpty
  | cons first line induction =>
    rw [List.mem_cons, not_or] at newline
    rw [lines, induction newline.2 (.inl (List.cons_ne_nil _ _))]
    · simp
    · exact fun same => newline.1 same.symm

theorem lines_intercalate {texts : List (List Char)} (isLine : ∀ text ∈ texts, IsLine text) :
    lines [] (['\n'].intercalate texts) = texts := by
  induction texts with
  | nil => rfl
  | cons text texts induction =>
    have first := isLine text List.mem_cons_self
    cases texts with
    | nil =>
      rw [List.intercalate_singleton]
      exact lines_last first.newline (.inr first.notEmpty)
    | cons next texts =>
      rw [List.intercalate_cons_cons, List.append_assoc]
      have rest := induction fun other member => isLine other (List.mem_cons_of_mem _ member)
      have split := lines_append first.newline first.return_ List.not_mem_nil
        (['\n'].intercalate (next :: texts))
      rw [rest] at split
      exact split

/-! ## Capabilities -/

def lineOf (capability : Capability) : String := grantLine capability.name capability.scopes

def isNameChar (char : Char) : Bool := char.isLower || char = '.' || char = '_'

theorem not_whitespace_of_isNameChar {char : Char} (isName : isNameChar char = true) :
    isWhitespace char = false := by
  have range : 46 ≤ char.toNat ∧ char.toNat ≤ 122 := by
    rw [isNameChar, Bool.or_eq_true, Bool.or_eq_true, decide_eq_true_eq, decide_eq_true_eq] at isName
    rcases isName with (lower | rfl) | rfl
    · change (_ && _) = true at lower
      rw [Bool.and_eq_true, decide_eq_true_eq, decide_eq_true_eq] at lower
      exact ⟨le_trans (by decide) (UInt32.le_iff_toNat_le.mp lower.1),
        UInt32.le_iff_toNat_le.mp lower.2⟩
    · decide
    · decide
  simp only [isWhitespace, decide_eq_false_iff_not]
  omega

structure Spelled [RegexEngine] (capability : Capability) : Prop where
  named : capability.name ≠ ""
  letters : ∀ char ∈ capability.name.toList, isNameChar char = true
  reaches : capability.scopes ≠ []
  words : ∀ scope ∈ capability.scopes, IsWord scope
  valid : ∀ scope ∈ capability.scopes, (Scope.parse scope).isOk = true
  unmetered : capability.quota = none

namespace Spelled

variable [RegexEngine] {capability : Capability}

theorem nameWord (spelled : Spelled capability) : IsWord capability.name :=
  ⟨spelled.named, fun char member => not_whitespace_of_isNameChar (spelled.letters char member)⟩

theorem read (spelled : Spelled capability) :
    capabilityLine (lineOf capability).toList = some capability := by
  have letters : capability.name.toList.all
      (fun char => char.isLower || char = '.' || char = '_') = true :=
    List.all_eq_true.mpr spelled.letters
  have valid : ¬(capability.scopes = [] ∨
      capability.scopes.any (fun scope => (Scope.parse scope).isOk = false) = true) := by
    rw [not_or, List.any_eq_true]
    refine ⟨spelled.reaches, fun invalid => ?_⟩
    rcases invalid with ⟨scope, member, bad⟩
    rw [spelled.valid scope member] at bad
    cases bad
  rw [capabilityLine, lineOf, splitWhitespace_grantLine spelled.nameWord spelled.words]
  simp only [letters, Bool.true_eq_false, if_false, if_neg valid, Option.some.injEq]
  rw [← spelled.unmetered]

theorem isLine (spelled : Spelled capability) : IsLine (lineOf capability).toList := by
  have plain (char : Char) (member : char ∈ (lineOf capability).toList) :
      char = ' ' ∨ isWhitespace char = false := by
    rw [lineOf, grantLine_toList, List.mem_append, List.mem_flatMap] at member
    rcases member with name | ⟨scope, inScopes, member⟩
    · exact .inr (spelled.nameWord.2 char name)
    · rcases List.mem_cons.mp member with space | member
      · exact .inl space
      · exact .inr ((spelled.words scope inScopes).2 char member)
  refine ⟨?_, fun member => ?_, fun member => ?_⟩
  · rw [lineOf, grantLine_toList]
    simp [spelled.named]
  · rcases plain _ member with space | other
    · cases space
    · cases other
  · rcases plain _ member with space | other
    · cases space
    · cases other

end Spelled

theorem capabilities_lines [RegexEngine] {found : List Capability} (notEmpty : found ≠ [])
    (spelled : ∀ capability ∈ found, Spelled capability) :
    capabilities ("\n".intercalate (found.map lineOf)) = some found := by
  have texts : lines [] ("\n".intercalate (found.map lineOf)).toList =
      found.map fun capability => (lineOf capability).toList := by
    rw [String.toList_intercalate, List.map_map]
    refine lines_intercalate fun text member => ?_
    rcases List.mem_map.mp member with ⟨capability, inFound, rfl⟩
    exact (spelled capability inFound).isLine
  have read : (found.map fun capability => (lineOf capability).toList).mapM capabilityLine =
      some found := by
    clear texts notEmpty
    induction found with
    | nil => rfl
    | cons capability found induction =>
      have rest := induction fun other member => spelled other (List.mem_cons_of_mem _ member)
      rw [List.map_cons, List.mapM_cons, (spelled capability List.mem_cons_self).read, rest]
      rfl
  rw [capabilities, texts, read]
  exact if_neg notEmpty

theorem spelled_of_capabilityLine [RegexEngine] {line : List Char} {capability : Capability}
    (read : capabilityLine line = some capability) : Spelled capability := by
  rw [capabilityLine] at read
  split at read
  · cases read
  · rename_i name scopes words
    have isWord {word : String} (member : word ∈ name :: scopes) : IsWord word :=
      isWord_of_mem_splitWhitespace (words ▸ member)
    split_ifs at read with letters scopesBad
    cases read
    rw [not_or] at scopesBad
    refine ⟨(isWord List.mem_cons_self).1, ?_, scopesBad.1,
      fun scope member => isWord (List.mem_cons_of_mem _ member), fun scope member => ?_, rfl⟩
    · rw [Bool.not_eq_false] at letters
      exact List.all_eq_true.mp letters
    · by_contra invalid
      exact scopesBad.2 (List.any_eq_true.mpr ⟨scope, member, by simpa using invalid⟩)

theorem spelled_of_capabilities [RegexEngine] {text : String} {found : List Capability}
    (read : capabilities text = some found) : ∀ capability ∈ found, Spelled capability := by
  rw [capabilities, Option.bind_eq_bind, Option.bind_eq_some_iff] at read
  rcases read with ⟨each, mapped, rest⟩
  split_ifs at rest
  cases rest
  intro capability member
  rcases exists_of_mem_mapM mapped member with ⟨line, -, read⟩
  exact spelled_of_capabilityLine read

end EclipseOS.Policyd
