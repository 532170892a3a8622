import EclipseOS.Foundation.Wildcard
import EclipseOS.PolicyEval.Scope

/-! # What a glob matches

The wildcard loop tries a pattern byte as a literal before it tries it as a
star, so a star that meets a `*` in the text takes that byte and nothing else. -/

namespace EclipseOS.PolicyEval.Glob

open Foundation Cbor

def token (byte : UInt8) : Wildcard UInt8 :=
  if byte = star then .run else if byte = question then .any else .one byte

/-- The pattern's bytes, read as the grammar has them. -/
def tokens (pattern : Bytes) : List (Wildcard UInt8) := pattern.map token

def Language (glob : Glob) (text : String) : Prop :=
  Wildcard.Spells (tokens (utf8 glob.pattern)) (utf8 text)

/-- The text is in the language with every star that stands at a `*` being that
byte. -/
def PlainLanguage (glob : Glob) (text : String) : Prop :=
  Wildcard.SpellsPlain star (tokens (utf8 glob.pattern)) (utf8 text)

theorem tokens_cons (byte : UInt8) (pattern : Bytes) :
    tokens (byte :: pattern) = token byte :: tokens pattern := rfl

theorem token_star : token star = .run := rfl

theorem stands_token {pattern found : UInt8} :
    Wildcard.Stands star (token pattern) found ↔ pattern = question ∨ pattern = found := by
  unfold token
  split
  · rename_i isStar
    subst isStar
    have notQuestion : star ≠ question := by decide
    rw [or_iff_right notQuestion]
    exact eq_comm
  · split
    · rename_i isQuestion
      exact iff_of_true trivial (.inl isQuestion)
    · rename_i notQuestion
      exact (or_iff_right notQuestion).symm

theorem stands_tokens_self (pattern : Bytes) :
    List.Forall₂ (Wildcard.Stands star) (tokens pattern) pattern := by
  induction pattern with
  | nil => exact .nil
  | cons byte pattern induction => exact .cons (stands_token.mpr (.inr rfl)) induction

/-- What the last star has left to try: everything from the byte after its mark. -/
def Retries (mark : Option (Bytes × Bytes)) : Prop :=
  ∃ afterStar marked, mark = some (afterStar, marked) ∧
    ∃ rest, rest <:+ marked.tail ∧ Wildcard.SpellsPlain star (tokens afterStar) rest

/-- Since the mark, every pattern byte has taken one byte of the text. -/
def Linked (pattern text : Bytes) (mark : Option (Bytes × Bytes)) : Prop :=
  ∀ afterStar marked, mark = some (afterStar, marked) → ∃ segment taken,
    afterStar = segment ++ pattern ∧ marked = taken ++ text ∧
      List.Forall₂ (Wildcard.Stands star) (tokens segment) taken

variable {pattern text : Bytes} {mark : Option (Bytes × Bytes)}

theorem Linked.advance {first byte : UInt8} (linked : Linked (first :: pattern) (byte :: text) mark)
    (stands : Wildcard.Stands star (token first) byte) : Linked pattern text mark := by
  intro afterStar marked isMark
  rcases linked afterStar marked isMark with ⟨segment, taken, rfl, rfl, all⟩
  refine ⟨segment ++ [first], taken ++ [byte], by simp, by simp, ?_⟩
  rw [tokens, List.map_append]
  exact List.rel_append all (.cons stands .nil)

theorem Linked.restart (pattern text : Bytes) : Linked pattern text (some (pattern, text)) := by
  intro afterStar marked isMark
  cases isMark
  exact ⟨[], [], rfl, rfl, .nil⟩

theorem Linked.later (linked : Linked pattern text mark) (retries : Retries mark) :
    ∃ later, later <:+ text ∧ Wildcard.SpellsPlain star (tokens pattern) later := by
  rcases retries with ⟨afterStar, marked, isMark, rest, isSuffix, plain⟩
  rcases linked afterStar marked isMark with ⟨segment, taken, rfl, rfl, all⟩
  rw [tokens, List.map_append] at plain
  exact plain.after_stands all (isSuffix.trans (List.tail_suffix _))

theorem plain_nil_iff :
    Wildcard.SpellsPlain star (tokens pattern) [] ↔ (pattern.dropWhile (· = star)).isEmpty := by
  induction pattern with
  | nil => simpa [tokens] using Wildcard.SpellsPlain.nil
  | cons byte pattern induction =>
    rw [List.dropWhile_cons]
    by_cases isStar : byte = star
    · rw [if_pos (decide_eq_true isStar), ← induction, tokens_cons, isStar, token_star,
        Wildcard.plain_run_iff (by simp)]
      simp
    · rw [if_neg (by simpa using isStar)]
      constructor
      · intro plain
        rw [tokens_cons, token, if_neg isStar] at plain
        split at plain <;> cases plain
      · intro none
        cases none

theorem not_plain_of_stuck {byte : UInt8}
    (stands : ¬(pattern.head? = some question ∨ pattern.head? = some byte))
    (starred : pattern.head? ≠ some star) :
    ¬Wildcard.SpellsPlain star (tokens pattern) (byte :: text) := by
  cases pattern with
  | nil =>
    intro plain
    cases plain
  | cons first pattern =>
    have notStar : first ≠ star := fun same => starred (congrArg some same)
    have notQuestion : first ≠ question := fun same => stands (.inl (congrArg some same))
    rw [tokens_cons, token, if_neg notStar, if_neg notQuestion]
    intro plain
    cases plain
    exact stands (.inr rfl)

/-- The loop decides what the rest of the pattern spells, or the last star has
left to try. -/
theorem scan_eq_true_iff (linked : Linked pattern text mark) :
    scan pattern text mark = true ↔
      Wildcard.SpellsPlain star (tokens pattern) text ∨ Retries mark := by
  induction pattern, text, mark using scan.induct with
  | case1 pattern mark =>
    rw [scan, ← plain_nil_iff]
    constructor
    · exact .inl
    · intro found
      rcases found with plain | retries
      · exact plain
      · rcases linked.later retries with ⟨later, isSuffix, plain⟩
        rwa [List.suffix_nil.mp isSuffix] at plain
  | case2 pattern mark byte text stands induction =>
    unfold scan
    rw [if_pos stands]
    cases pattern with
    | nil => simp at stands
    | cons first pattern =>
      have taken : Wildcard.Stands star (token first) byte :=
        stands_token.mpr (by simpa using stands)
      rw [List.tail_cons] at induction ⊢
      rw [induction (linked.advance taken), tokens_cons,
        Wildcard.plain_cons_iff_of_stands taken]
  | case3 pattern mark byte text stands starred induction =>
    unfold scan
    rw [if_neg stands, if_pos starred]
    cases pattern with
    | nil => cases starred
    | cons first pattern =>
      have isStar : first = star := by simpa using starred
      have apart : (byte :: text).head? ≠ some star := by
        intro same
        exact stands (.inr (starred.trans same.symm))
      have spelled : Wildcard.SpellsPlain star (tokens (first :: pattern)) (byte :: text) ↔
          ∃ rest, rest <:+ byte :: text ∧ Wildcard.SpellsPlain star (tokens pattern) rest := by
        rw [tokens_cons, isStar, token_star]
        exact Wildcard.plain_run_iff apart
      rw [List.tail_cons] at induction ⊢
      rw [induction (.restart _ _), spelled]
      constructor
      · intro found
        rcases found with plain | ⟨_, _, isMark, rest, isSuffix, plain⟩
        · exact .inl ⟨_, List.suffix_refl _, plain⟩
        · cases isMark
          exact .inl ⟨rest, isSuffix.trans (List.suffix_cons _ _), plain⟩
      · intro found
        have reached : ∃ rest, rest <:+ byte :: text ∧
            Wildcard.SpellsPlain star (tokens pattern) rest := by
          rcases found with reached | retries
          · exact reached
          · rcases linked.later retries with ⟨later, isSuffix, plain⟩
            rcases Wildcard.SpellsPlain.tail plain with ⟨rest, isRest, plainRest⟩
            exact ⟨rest, isRest.trans isSuffix, plainRest⟩
        rcases reached with ⟨rest, isSuffix, plain⟩
        rcases List.suffix_cons_iff.mp isSuffix with rfl | shorter
        · exact .inl plain
        · exact .inr ⟨_, _, rfl, rest, shorter, plain⟩
  | case4 pattern byte text stands starred afterStar first marked induction =>
    unfold scan
    rw [if_neg stands, if_neg starred, or_iff_right (not_plain_of_stuck stands starred)]
    refine (induction (.restart _ _)).trans ?_
    constructor
    · intro found
      rcases found with plain | ⟨_, _, isMark, rest, isSuffix, plain⟩
      · exact ⟨_, _, rfl, _, List.suffix_refl _, plain⟩
      · cases isMark
        exact ⟨_, _, rfl, rest, isSuffix.trans (List.tail_suffix _), plain⟩
    · intro retries
      rcases retries with ⟨_, _, isMark, rest, isSuffix, plain⟩
      cases isMark
      cases marked with
      | nil =>
        rw [List.suffix_nil.mp isSuffix] at plain
        exact .inl plain
      | cons next marked =>
        rcases List.suffix_cons_iff.mp isSuffix with rfl | shorter
        · exact .inl plain
        · exact .inr ⟨_, _, rfl, rest, shorter, plain⟩
  | case5 pattern mark byte text stands starred unmarked =>
    have none : ¬Retries mark := by
      intro retries
      rcases retries with ⟨afterStar, marked, isMark, -⟩
      rcases linked afterStar marked isMark with ⟨_, taken, -, rfl, -⟩
      cases taken with
      | nil => exact unmarked _ _ _ isMark
      | cons _ _ => exact unmarked _ _ _ isMark
    unfold scan
    rw [if_neg stands, if_neg starred]
    refine iff_of_false ?_ (not_or.mpr ⟨not_plain_of_stuck stands starred, none⟩)
    split
    · rename_i isMark
      exact absurd rfl (unmarked _ _ _)
    · exact Bool.false_ne_true

theorem matches_eq_true_iff {glob : Glob} {text : String} :
    glob.matches text = true ↔ glob.PlainLanguage text := by
  have unmarked : Linked (utf8 glob.pattern) (utf8 text) none := by
    intro _ _ isMark
    cases isMark
  refine (scan_eq_true_iff unmarked).trans (or_iff_left ?_)
  intro retries
  rcases retries with ⟨_, _, isMark, -⟩
  cases isMark

/-! ## When the loop is right -/

/-- The glob matches this text exactly if it is in its language. -/
def ExactOn (glob : Glob) (text : String) : Prop := glob.matches text = true ↔ glob.Language text

theorem exactOn_iff {glob : Glob} {text : String} :
    glob.ExactOn text ↔ (glob.Language text → glob.PlainLanguage text) := by
  rw [ExactOn, matches_eq_true_iff]
  exact ⟨Iff.mpr, fun plain => ⟨Wildcard.SpellsPlain.spells, plain⟩⟩

theorem exactOn_of_no_star {glob : Glob} {text : String} (absent : star ∉ utf8 text) :
    glob.ExactOn text :=
  exactOn_iff.mpr fun spells => spells.plain absent

theorem utf8_append (left right : String) : utf8 (left ++ right) = utf8 left ++ utf8 right := by
  simp [utf8, String.toByteArray_append]

theorem spells_self (pattern : Bytes) : Wildcard.Spells (tokens pattern) pattern := by
  have whole : Wildcard.SpellsPlain star (tokens pattern ++ []) (pattern ++ []) ↔
      Wildcard.SpellsPlain star [] [] :=
    Wildcard.plain_append_iff_of_stands (stands_tokens_self pattern)
  rw [List.append_nil, List.append_nil] at whole
  exact (whole.mpr .nil).spells

theorem language_twice {glob : Glob} (starred : star ∈ utf8 glob.pattern) :
    glob.Language (glob.pattern ++ glob.pattern) := by
  rw [Language, utf8_append]
  rcases List.append_of_mem starred with ⟨before, after, split⟩
  rw [split, tokens, List.map_append, List.map_cons, token_star]
  have ends := Wildcard.Spells.run (star :: after ++ (before ++ [star])) (spells_self after)
  have starts := (spells_self before).append ends
  simpa [tokens] using starts

theorem not_plainLanguage_twice {glob : Glob} (starred : star ∈ utf8 glob.pattern) :
    ¬glob.PlainLanguage (glob.pattern ++ glob.pattern) := by
  have whole : Wildcard.SpellsPlain star (tokens (utf8 glob.pattern) ++ [])
      (utf8 glob.pattern ++ utf8 glob.pattern) ↔ Wildcard.SpellsPlain star [] (utf8 glob.pattern) :=
    Wildcard.plain_append_iff_of_stands (stands_tokens_self (utf8 glob.pattern))
  rw [List.append_nil] at whole
  rw [PlainLanguage, utf8_append, whole]
  intro plain
  generalize utf8 glob.pattern = bytes at plain starred
  cases plain
  cases starred

theorem plain_of_no_star {pattern text : Bytes} (absent : star ∉ pattern)
    (spells : Wildcard.Spells (tokens pattern) text) :
    Wildcard.SpellsPlain star (tokens pattern) text := by
  have noRun : Wildcard.run ∉ tokens pattern := by
    intro member
    rcases List.mem_map.mp member with ⟨byte, inPattern, isRun⟩
    unfold token at isRun
    split at isRun
    · rename_i isStar
      exact absent (isStar ▸ inPattern)
    · split at isRun <;> cases isRun
  exact spells.plain_of_no_run noRun

theorem exactOn_all_iff {glob : Glob} : (∀ text, glob.ExactOn text) ↔ star ∉ utf8 glob.pattern := by
  constructor
  · intro exactOn starred
    exact not_plainLanguage_twice starred (exactOn_iff.mp (exactOn _) (language_twice starred))
  · intro absent text
    exact exactOn_iff.mpr (plain_of_no_star absent)

/-- A match is exact where every star of the pattern that stands at a `*` of the text
may be that one byte, and on every text only for a pattern without stars. -/
theorem matches_exact_iff (glob : Glob) :
    (∀ text : String, (glob.matches text = true ↔ glob.Language text) ↔
      (glob.Language text → glob.PlainLanguage text)) ∧
    ((∀ text, glob.matches text = true ↔ glob.Language text) ↔ star ∉ utf8 glob.pattern) :=
  ⟨fun _ => exactOn_iff, exactOn_all_iff⟩

/-- The glob `*` does not match `**`. -/
theorem star_misses_stars : (new "*").Language "**" ∧ (new "*").matches "**" = false := by
  have starred : star ∈ utf8 (new "*").pattern := by decide
  refine ⟨language_twice starred, Bool.eq_false_iff.mpr fun found => ?_⟩
  exact not_plainLanguage_twice starred (matches_eq_true_iff.mp found)

/-! ## Globs that name one text -/

theorem utf8_cons (char : Char) (chars : List Char) :
    utf8 (String.ofList (char :: chars)) =
      String.utf8EncodeChar char ++ utf8 (String.ofList chars) := by
  rw [utf8, String.toByteArray_ofList, List.utf8Encode_cons, List.utf8Encode_singleton]
  simp [utf8]

theorem toNat_eq_of_mem_encoded {byte : UInt8} {char : Char} (ascii : byte.toNat < 128)
    (member : byte ∈ String.utf8EncodeChar char) : char.toNat = byte.toNat := by
  have value {encoded : Nat} (fits : encoded < 256) (same : byte = UInt8.ofNat encoded) :
      byte.toNat = encoded := by
    rw [same, UInt8.toNat_ofNat', Nat.mod_eq_of_lt fits]
  have follows {low top : Nat} (fits : low + top < 256) (high : 128 ≤ top)
      (same : byte = UInt8.ofNat (low + top)) : char.toNat = byte.toNat := by
    have encoded := value fits same
    omega
  simp only [String.utf8EncodeChar] at member
  split_ifs at member with one two three
  · exact (value (by omega) (List.mem_singleton.mp member)).symm
  all_goals simp only [List.mem_cons, List.not_mem_nil, or_false] at member
  · rcases member with same | same <;> exact follows (by omega) (by decide) same
  · rcases member with same | same | same <;> exact follows (by omega) (by decide) same
  · rcases member with same | same | same | same <;> exact follows (by omega) (by decide) same

def Literal (text : String) : Prop := '*' ∉ text.toList ∧ '?' ∉ text.toList

instance (text : String) : Decidable (Literal text) := inferInstanceAs (Decidable (_ ∧ _))

theorem mem_of_mem_utf8 {byte : UInt8} (ascii : byte.toNat < 128) {chars : List Char}
    (member : byte ∈ utf8 (String.ofList chars)) : Char.ofNat byte.toNat ∈ chars := by
  induction chars with
  | nil => cases member
  | cons char chars induction =>
    rw [utf8_cons, List.mem_append] at member
    rcases member with own | other
    · rw [← toNat_eq_of_mem_encoded ascii own, Char.ofNat_toNat]
      exact List.mem_cons_self
    · exact List.mem_cons_of_mem _ (induction other)

/-- What a pattern becomes with each `?` a given character and each `*` a given text. -/
def filled (any : Char) (run : List Char) : List Char → List Char
  | [] => []
  | '*' :: pattern => run ++ filled any run pattern
  | '?' :: pattern => any :: filled any run pattern
  | char :: pattern => char :: filled any run pattern

attribute [local simp] filled in
theorem spells_filled {any : Char} (ascii : any.toNat ≤ 127) (run pattern : List Char) :
    Wildcard.Spells (tokens (utf8 (String.ofList pattern)))
      (utf8 (String.ofList (filled any run pattern))) := by
  fun_induction filled any run pattern with
  | case1 => exact spells_self _
  | case2 pattern induction =>
    rw [utf8_cons, String.ofList_append, utf8_append]
    exact .run _ induction
  | case3 pattern induction =>
    rw [utf8_cons, utf8_cons]
    have one : String.utf8EncodeChar any = [UInt8.ofNat any.toNat] := if_pos ascii
    rw [one]
    exact .any induction
  | case4 char pattern _ _ induction =>
    rw [utf8_cons, utf8_cons, tokens, List.map_append]
    exact (spells_self _).append induction

theorem filled_cons {char any : Char} {run pattern : List Char} (notStar : char ≠ '*')
    (notQuestion : char ≠ '?') :
    filled any run (char :: pattern) = char :: filled any run pattern := by
  rw [filled]
  · exact notStar
  · exact notQuestion

theorem star_notMem_filled {any : Char} {run : List Char} (pattern : List Char)
    (anyOther : any ≠ '*') (runOther : '*' ∉ run) : '*' ∉ filled any run pattern := by
  fun_induction filled any run pattern with
  | case1 => exact List.not_mem_nil
  | case2 pattern induction =>
    rw [List.mem_append]
    exact not_or.mpr ⟨runOther, induction⟩
  | case3 pattern induction =>
    rw [List.mem_cons]
    exact not_or.mpr ⟨anyOther.symm, induction⟩
  | case4 char pattern notStar _ induction =>
    rw [List.mem_cons]
    exact not_or.mpr ⟨fun same => notStar same.symm, induction⟩

theorem length_filled_le (any other : Char) (pattern : List Char) :
    (filled any [] pattern).length ≤ (filled other ['b'] pattern).length := by
  fun_induction filled any [] pattern with
  | case1 => exact Nat.zero_le _
  | case2 pattern induction =>
    rw [filled, List.nil_append]
    exact induction.trans (Nat.le_succ _)
  | case3 pattern induction =>
    rw [filled]
    exact Nat.succ_le_succ induction
  | case4 char pattern notStar notQuestion induction =>
    rw [filled_cons notStar notQuestion]
    exact Nat.succ_le_succ induction

theorem literal_of_filled_eq {pattern : List Char}
    (same : filled 'a' [] pattern = filled 'b' ['b'] pattern) : '*' ∉ pattern ∧ '?' ∉ pattern := by
  induction pattern with
  | nil => exact ⟨List.not_mem_nil, List.not_mem_nil⟩
  | cons char pattern induction =>
    by_cases isStar : char = '*'
    · subst isStar
      have lengths := congrArg List.length same
      have shorter := length_filled_le 'a' 'b' pattern
      simp only [filled, List.nil_append, List.singleton_append, List.length_cons] at lengths
      omega
    · by_cases isQuestion : char = '?'
      · subst isQuestion
        simp [filled] at same
      · rw [filled_cons isStar isQuestion, filled_cons isStar isQuestion] at same
        have rest := induction (List.cons.inj same).2
        simp only [List.mem_cons, not_or]
        exact ⟨⟨Ne.symm isStar, rest.1⟩, Ne.symm isQuestion, rest.2⟩

theorem matches_filled (pattern : String) {any : Char} {run : List Char} (ascii : any.toNat ≤ 127)
    (anyOther : any ≠ '*') (runOther : '*' ∉ run) :
    (new pattern).matches (String.ofList (filled any run pattern.toList)) = true := by
  have starless : star ∉ utf8 (String.ofList (filled any run pattern.toList)) := by
    intro member
    exact star_notMem_filled _ anyOther runOther (mem_of_mem_utf8 (by decide) member)
  refine (exactOn_of_no_star starless).mpr ?_
  have spells := spells_filled ascii run pattern.toList
  rwa [String.ofList_toList] at spells

theorem spells_literal_iff {pattern text : Bytes} (starless : star ∉ pattern)
    (plain : question ∉ pattern) : Wildcard.Spells (tokens pattern) text ↔ text = pattern := by
  constructor
  · intro spells
    induction pattern generalizing text with
    | nil =>
      cases spells
      rfl
    | cons byte pattern induction =>
      rw [List.mem_cons, not_or] at starless plain
      have one : token byte = .one byte := by
        rw [token, if_neg (Ne.symm starless.1), if_neg (Ne.symm plain.1)]
      rw [tokens_cons, one] at spells
      cases spells with
      | one rest => rw [induction starless.2 plain.2 rest]
  · rintro rfl
    exact spells_self text

theorem sole_iff {pattern text : String} :
    (∀ other, (new pattern).matches other = true ↔ other = text) ↔
      pattern = text ∧ Literal pattern := by
  have bytes (literal : Literal pattern) :
      star ∉ utf8 pattern ∧ question ∉ utf8 pattern := by
    rw [← String.ofList_toList (s := pattern)]
    exact ⟨fun member => literal.1 (mem_of_mem_utf8 (by decide) member),
      fun member => literal.2 (mem_of_mem_utf8 (by decide) member)⟩
  have own (literal : Literal pattern) (other : String) :
      (new pattern).matches other = true ↔ other = pattern := by
    refine (exactOn_all_iff.mpr (bytes literal).1 other).trans ?_
    exact (spells_literal_iff (bytes literal).1 (bytes literal).2).trans utf8_injective.eq_iff
  constructor
  · intro sole
    have first : String.ofList (filled 'a' [] pattern.toList) = text :=
      (sole _).mp (matches_filled pattern (by decide) (by decide) List.not_mem_nil)
    have second : String.ofList (filled 'b' ['b'] pattern.toList) = text :=
      (sole _).mp (matches_filled pattern (by decide) (by decide) (by decide))
    have literal : Literal pattern :=
      literal_of_filled_eq (String.ofList_injective (first.trans second.symm))
    exact ⟨(sole pattern).mp ((own literal pattern).mpr rfl), literal⟩
  · rintro ⟨rfl, literal⟩
    exact own literal

end EclipseOS.PolicyEval.Glob
