import EclipseOS.Brokerd.BindText
import EclipseOS.Foundation.Wildcard

/-! # What a binding matches

Names and the names under them, the parts of a URL, and the language of a path pattern. -/

namespace EclipseOS.Brokerd

open Foundation PolicyEval Cbor

/-! ## Path patterns -/

namespace Path

/-- `*` stands for any run of bytes, every other byte for itself. -/
def token (byte : UInt8) : Wildcard UInt8 := if byte = 42 then .run else .one byte

def tokens (pattern : Bytes) : List (Wildcard UInt8) := pattern.map token

variable {pattern text segment : Bytes} {mark : Option (Bytes × Bytes)} {byte : UInt8}

/-- What the last star has left to try: everything from the byte after its mark. -/
def Retries (mark : Option (Bytes × Bytes)) : Prop :=
  ∃ afterStar marked, mark = some (afterStar, marked) ∧
    ∃ rest, rest <:+ marked.tail ∧ Wildcard.Spells (tokens afterStar) rest

/-- Since the mark the pattern has taken the text byte by byte. -/
def Linked (pattern text : Bytes) (mark : Option (Bytes × Bytes)) : Prop :=
  ∀ afterStar marked, mark = some (afterStar, marked) → ∃ segment,
    afterStar = segment ++ pattern ∧ marked = segment ++ text ∧ 42 ∉ segment

theorem Linked.restart (pattern text : Bytes) : Linked pattern text (some (pattern, text)) := by
  intro afterStar marked isMark
  cases isMark
  exact ⟨[], rfl, rfl, List.not_mem_nil⟩

theorem Linked.advance (linked : Linked (byte :: pattern) (byte :: text) mark)
    (plain : byte ≠ 42) : Linked pattern text mark := by
  intro afterStar marked isMark
  rcases linked afterStar marked isMark with ⟨segment, rfl, rfl, unstarred⟩
  refine ⟨segment ++ [byte], by simp, by simp, ?_⟩
  rw [List.mem_append, List.mem_singleton, not_or]
  exact ⟨unstarred, plain.symm⟩

theorem spells_segment (unstarred : 42 ∉ segment) :
    Wildcard.Spells (tokens (segment ++ pattern)) text ↔
      ∃ rest, text = segment ++ rest ∧ Wildcard.Spells (tokens pattern) rest := by
  induction segment generalizing text with
  | nil => simp
  | cons first segment induction =>
    rw [List.mem_cons, not_or] at unstarred
    have isOne : token first = .one first := if_neg (Ne.symm unstarred.1)
    constructor
    · intro spells
      rw [List.cons_append, tokens, List.map_cons, isOne] at spells
      cases spells with
      | one rest =>
        rcases (induction unstarred.2).mp rest with ⟨left, rfl, spells⟩
        exact ⟨left, rfl, spells⟩
    · intro found
      rcases found with ⟨rest, rfl, spells⟩
      rw [List.cons_append, tokens, List.map_cons, isOne]
      exact .one ((induction unstarred.2).mpr ⟨rest, rfl, spells⟩)

theorem spells_star : Wildcard.Spells (tokens (42 :: pattern)) text ↔
    ∃ rest, rest <:+ text ∧ Wildcard.Spells (tokens pattern) rest := by
  have isRun : token 42 = .run := rfl
  rw [tokens, List.map_cons, isRun]
  constructor
  · intro spells
    cases spells with
    | run skipped rest => exact ⟨_, List.suffix_append _ _, rest⟩
  · intro found
    rcases found with ⟨rest, ⟨skipped, rfl⟩, spells⟩
    exact .run skipped spells

theorem Linked.later (linked : Linked pattern text mark) (retries : Retries mark) :
    ∃ rest, rest <:+ text ∧ Wildcard.Spells (tokens pattern) rest := by
  rcases retries with ⟨afterStar, marked, isMark, rest, isSuffix, spells⟩
  rcases linked afterStar marked isMark with ⟨segment, rfl, rfl, unstarred⟩
  rcases (spells_segment unstarred).mp spells with ⟨left, rfl, reached⟩
  refine ⟨left, ?_, reached⟩
  have whole : left <:+ segment ++ text :=
    (List.suffix_append segment left).trans (isSuffix.trans (List.tail_suffix _))
  have short : left.length ≤ text.length := by
    have bound := (isSuffix.trans (List.tail_suffix _)).length_le
    rw [List.length_append, List.length_append] at bound
    omega
  exact List.suffix_of_suffix_length_le whole (List.suffix_append segment text) short

theorem spells_nil : Wildcard.Spells (tokens pattern) [] ↔ pattern.all (· = 42) = true := by
  induction pattern with
  | nil => simpa [tokens] using Wildcard.Spells.nil
  | cons first pattern induction =>
    by_cases isStar : first = 42
    · subst isStar
      rw [spells_star]
      simpa using induction
    · have isOne : token first = .one first := if_neg isStar
      have notAll : (first :: pattern).all (· = 42) = false := by simp [isStar]
      rw [notAll, tokens, List.map_cons, isOne]
      refine iff_of_false (fun spells => ?_) Bool.false_ne_true
      cases spells

theorem not_spells_of_stuck (starred : pattern.head? ≠ some 42)
    (stands : pattern.head? ≠ some byte) : ¬Wildcard.Spells (tokens pattern) (byte :: text) := by
  intro spells
  cases pattern with
  | nil => cases spells
  | cons first pattern =>
    have isOne : token first = .one first :=
      if_neg fun same => starred (congrArg some same)
    rw [tokens, List.map_cons, isOne] at spells
    cases spells
    exact stands rfl

/-- The loop decides what the rest of the pattern spells, or the last star has left to try. -/
theorem glob_iff (linked : Linked pattern text mark) :
    glob pattern text mark = true ↔ Wildcard.Spells (tokens pattern) text ∨ Retries mark := by
  induction pattern, text, mark using glob.induct with
  | case1 pattern mark =>
    rw [glob, ← spells_nil]
    constructor
    · exact .inl
    · intro found
      rcases found with spells | retries
      · exact spells
      · rcases linked.later retries with ⟨rest, isSuffix, spells⟩
        rwa [List.suffix_nil.mp isSuffix] at spells
  | case2 pattern mark byte text starred induction =>
    unfold glob
    rw [if_pos starred]
    cases pattern with
    | nil => cases starred
    | cons first pattern =>
      cases Option.some.inj starred
      rw [List.tail_cons] at induction ⊢
      rw [induction (.restart _ _), spells_star]
      constructor
      · intro found
        rcases found with spells | ⟨_, _, isMark, rest, isSuffix, spells⟩
        · exact .inl ⟨_, List.suffix_refl _, spells⟩
        · cases isMark
          exact .inl ⟨rest, isSuffix.trans (List.suffix_cons _ _), spells⟩
      · intro found
        have reached : ∃ rest, rest <:+ byte :: text ∧
            Wildcard.Spells (tokens pattern) rest := by
          rcases found with reached | retries
          · exact reached
          · rcases linked.later retries with ⟨later, isSuffix, spells⟩
            rcases spells_star.mp spells with ⟨rest, isRest, spells⟩
            exact ⟨rest, isRest.trans isSuffix, spells⟩
        rcases reached with ⟨rest, isSuffix, spells⟩
        rcases List.suffix_cons_iff.mp isSuffix with rfl | shorter
        · exact .inl spells
        · exact .inr ⟨_, _, rfl, rest, shorter, spells⟩
  | case3 pattern mark byte text starred stands induction =>
    unfold glob
    rw [if_neg starred, if_pos stands]
    cases pattern with
    | nil => cases stands
    | cons first pattern =>
      cases Option.some.inj stands
      have plain : byte ≠ 42 := fun same => starred (congrArg some same)
      have isOne : token byte = .one byte := if_neg plain
      rw [List.tail_cons] at induction ⊢
      rw [induction (linked.advance plain)]
      have spelled : Wildcard.Spells (tokens (byte :: pattern)) (byte :: text) ↔
          Wildcard.Spells (tokens pattern) text := by
        rw [tokens, List.map_cons, isOne]
        constructor
        · intro spells
          cases spells with
          | one rest => exact rest
        · exact .one
      rw [spelled]
  | case4 pattern byte text starred stands afterStar first marked induction =>
    unfold glob
    rw [if_neg starred, if_neg stands, or_iff_right (not_spells_of_stuck starred stands)]
    refine (induction (.restart _ _)).trans ?_
    constructor
    · intro found
      rcases found with spells | ⟨_, _, isMark, rest, isSuffix, spells⟩
      · exact ⟨_, _, rfl, _, List.suffix_refl _, spells⟩
      · cases isMark
        exact ⟨_, _, rfl, rest, isSuffix.trans (List.tail_suffix _), spells⟩
    · intro retries
      rcases retries with ⟨_, _, isMark, rest, isSuffix, spells⟩
      cases isMark
      cases marked with
      | nil =>
        rw [List.suffix_nil.mp isSuffix] at spells
        exact .inl spells
      | cons next marked =>
        rcases List.suffix_cons_iff.mp isSuffix with rfl | shorter
        · exact .inl spells
        · exact .inr ⟨_, _, rfl, rest, shorter, spells⟩
  | case5 pattern mark byte text starred stands unmarked =>
    have none : ¬Retries mark := by
      intro retries
      rcases retries with ⟨afterStar, marked, isMark, -⟩
      rcases linked afterStar marked isMark with ⟨segment, -, rfl, -⟩
      cases segment with
      | nil => exact unmarked _ _ _ isMark
      | cons _ _ => exact unmarked _ _ _ isMark
    unfold glob
    rw [if_neg starred, if_neg stands]
    refine iff_of_false ?_ (not_or.mpr ⟨not_spells_of_stuck starred stands, none⟩)
    split
    · exact absurd rfl (unmarked _ _ _)
    · exact Bool.false_ne_true

theorem glob_eq_true_iff : glob pattern text none = true ↔
    Wildcard.Spells (tokens pattern) text := by
  have unmarked : Linked pattern text none := by
    intro _ _ isMark
    cases isMark
  refine (glob_iff unmarked).trans (or_iff_left ?_)
  intro retries
  rcases retries with ⟨_, _, isMark, -⟩
  cases isMark

end Path

/-! ## Names -/

/-- Labels of small letters, digits and hyphens, the last one not a number. -/
structure IsName (host : List Char) : Prop where
  short : byteLen host ≤ 253
  labels : ∀ label ∈ splitAt '.' host, labelOk label = true
  name : ¬((splitAt '.' host).getLast?.getD []).all Char.isDigit = true

/-- A bound name names itself; a pattern names what has at least one label more. -/
def Names (bound host : List Char) : Prop :=
  match afterPrefix "*." bound with
  | none => host = bound
  | some apex =>
    IsName host ∧ ∃ more, more ≠ [] ∧ splitAt '.' host = more ++ splitAt '.' apex

section Hosts

variable {host name apex bound : List Char}

theorem labelOk_nil : labelOk [] = false := rfl

theorem IsName.checks (isName : IsName host) :
    ¬(host = [] ∨ 253 < byteLen host ∨ host.head? = some '.' ∨ host.getLast? = some '.') := by
  intro bad
  have refuses (empty : [] ∈ splitAt '.' host) : False := by
    have ok := isName.labels [] empty
    rw [labelOk_nil] at ok
    cases ok
  rcases bad with empty | long | dot | dot
  · rw [empty] at refuses
    exact refuses (List.mem_singleton_self _)
  · exact absurd isName.short (Nat.not_le.mpr long)
  · rcases List.head?_eq_some_iff.mp dot with ⟨rest, rfl⟩
    apply refuses
    rw [splitAt, ← List.nil_append ('.' :: rest), List.splitOnP_append_cons _ _ (by decide)]
    exact List.mem_append_left _ (List.mem_singleton_self _)
  · rcases List.getLast?_eq_some_iff.mp dot with ⟨before, rfl⟩
    apply refuses
    rw [splitAt, List.splitOnP_append_cons _ _ (by decide)]
    exact List.mem_append_right _ (List.mem_singleton_self _)

theorem hostOk_target : hostOk name false = some host ↔
    host = lowercase name ∧ IsName (lowercase name) := by
  unfold hostOk
  simp only [Bool.false_eq_true, if_false]
  constructor
  · intro ok
    split_ifs at ok with bad good
    refine ⟨(Option.some.inj ok).symm, ⟨?_, List.all_eq_true.mp good.1, good.2⟩⟩
    by_contra long
    exact bad (.inr (.inl (Nat.lt_of_not_le long)))
  · intro found
    rcases found with ⟨rfl, isName⟩
    rw [if_neg isName.checks, if_pos ⟨List.all_eq_true.mpr isName.labels, isName.name⟩]

theorem isName_of_bound (ok : hostOk name true = some bound)
    (plain : afterPrefix "*." bound = none) : IsName bound := by
  have folded := (hostOk_eq_some ok).1
  unfold hostOk at ok
  rw [folded] at plain ⊢
  simp only [if_true, plain, Option.getD_none] at ok
  split_ifs at ok with bad good
  refine ⟨?_, List.all_eq_true.mp good.1, good.2⟩
  by_contra long
  exact bad (.inr (.inl (Nat.lt_of_not_le long)))

theorem intercalate_append {separator : Char} {before after : List (List Char)}
    (first : before ≠ []) (second : after ≠ []) :
    [separator].intercalate (before ++ after) =
      [separator].intercalate before ++ separator :: [separator].intercalate after := by
  induction before with
  | nil => exact absurd rfl first
  | cons label before induction =>
    cases before with
    | nil =>
      rw [List.singleton_append, List.intercalate_cons_of_ne_nil second,
        List.intercalate_singleton, List.append_assoc, List.singleton_append]
    | cons next before =>
      have rest := induction (List.cons_ne_nil _ _)
      rw [List.cons_append, List.intercalate_cons_of_ne_nil (by simp), rest,
        List.intercalate_cons_of_ne_nil (List.cons_ne_nil next before)]
      simp only [List.append_assoc]

theorem intercalate_splitAt (host : List Char) : ['.'].intercalate (splitAt '.' host) = host :=
  List.intercalate_splitOn '.'

theorem byteLen_append (before after : List Char) :
    byteLen (before ++ after) = byteLen before + byteLen after := by
  rw [byteLen, List.map_append, List.sum_append, byteLen, byteLen]

theorem byteLen_pos (filled : host ≠ []) : 0 < byteLen host := by
  cases host with
  | nil => exact absurd rfl filled
  | cons char host =>
    have positive := Char.utf8Size_pos char
    rw [byteLen, List.map_cons, List.sum_cons]
    omega

theorem hostMatch_iff (isName : IsName host) :
    hostMatch bound host = true ↔ Names bound host := by
  unfold hostMatch Names
  cases stripped : afterPrefix "*." bound with
  | none =>
    simp only [decide_eq_true_iff]
    exact eq_comm
  | some apex =>
    simp only [and_iff_right isName, Bool.and_eq_true, decide_eq_true_eq,
        List.isSuffixOf_iff_suffix]
    constructor
    · intro checks
      rcases checks with ⟨⟨longer, ⟨before, rfl⟩⟩, dot⟩
      rw [List.length_append, Nat.add_sub_cancel, List.take_left] at dot
      rcases List.getLast?_eq_some_iff.mp dot with ⟨more, rfl⟩
      refine ⟨splitAt '.' more, List.splitOnP_ne_nil _ _, ?_⟩
      rw [List.append_assoc, List.singleton_append, splitAt,
        List.splitOnP_append_cons _ _ (by decide)]
      rfl
    · intro found
      rcases found with ⟨more, filled, labels⟩
      have whole : host = ['.'].intercalate more ++ ['.'] ++ apex := by
        have apart : splitAt '.' apex ≠ [] := List.splitOnP_ne_nil _ _
        rw [← intercalate_splitAt host, labels, intercalate_append filled apart,
          intercalate_splitAt, List.append_assoc, List.singleton_append]
      generalize ['.'].intercalate more = front at whole
      have first : front ≠ [] := by
        intro empty
        apply isName.checks
        rw [whole, empty]
        exact .inr (.inr (.inl rfl))
      have positive := byteLen_pos first
      have dot : byteLen ['.'] = 1 := by decide
      have sizes : byteLen host = byteLen front + 1 + byteLen apex := by
        rw [whole, byteLen_append, byteLen_append, dot]
      have before : host.take (host.length - apex.length) = front ++ ['.'] := by
        rw [whole, List.length_append, Nat.add_sub_cancel, List.take_left]
      refine ⟨⟨by omega, ⟨front ++ ['.'], whole.symm⟩⟩, ?_⟩
      rw [before]
      exact List.getLast?_concat

end Hosts

/-! ## URLs -/

section Urls

variable {url scheme authority path host : List Char} {port usual : UInt16}

/-- A scheme, an authority up to the first mark after it, and the path without query and
fragment. -/
structure IsUrl (url scheme authority path : List Char) : Prop where
  spelled : scheme ≠ [] ∧ scheme.all Char.isAlphanum = true
  unmarked : ∀ char ∈ authority, beforeMark char = true
  rest : ∃ tail, url = scheme ++ ("://".toList ++ (authority ++ tail)) ∧
    (∀ char ∈ tail.head?, beforeMark char = false) ∧
      path = if tail.takeWhile inPath = [] then ['/'] else tail.takeWhile inPath

/-- A host and its port, which is the scheme's where none is written. -/
structure IsAuthority (authority : List Char) (usual : UInt16) (host : List Char)
    (port : UInt16) : Prop where
  plain : ∀ char ∈ authority, char ≠ '@' ∧ char ≠ '\\' ∧ char ≠ '[' ∧ char ≠ ']'
  cut : (':' ∉ authority ∧ host = authority ∧ port = usual) ∨
    ∃ digits, authority = host ++ ':' :: digits ∧ ':' ∉ host ∧ digits ≠ [] ∧
      byteLen digits ≤ 5 ∧ digits.all Char.isDigit = true ∧
        Nat.ofDigitChars 10 digits 0 = port.toNat ∧ port ≠ 0

theorem splitUrl_iff {folded : List Char} : splitUrl url = some (folded, authority, path) ↔
    ∃ scheme, IsUrl url scheme authority path ∧ folded = lowercase scheme := by
  constructor
  · intro split
    unfold splitUrl at split
    cases cut : afterPrefix "://" (url.dropWhile fun char => decide (char ≠ ':')) with
    | none =>
      simp only [cut] at split
      cases split
    | some rest =>
      simp only [cut] at split
      split_ifs at split with shaped
      all_goals
        rw [not_or, not_not] at shaped
        simp only [Option.some.injEq, Prod.mk.injEq] at split
        rcases split with ⟨isFolded, isAuthority, isPath⟩
        refine ⟨_, ⟨shaped, ?_, rest.dropWhile beforeMark, ?_, ?_, ?_⟩, isFolded.symm⟩
      all_goals first
        | (rw [← isAuthority]
           exact fun char member => List.mem_takeWhile_imp member)
        | (rw [← isAuthority]
           have whole : rest.takeWhile beforeMark ++ rest.dropWhile beforeMark = rest :=
             List.takeWhile_append_dropWhile
           show url = _ ++ (_ ++ (rest.takeWhile beforeMark ++ rest.dropWhile beforeMark))
           rw [whole, afterPrefix_eq_some.mp cut]
           exact List.takeWhile_append_dropWhile.symm)
        | (intro char isHead
           have notMarked := List.head?_dropWhile_not beforeMark rest
           rw [Option.mem_def.mp isHead] at notMarked
           simpa using notMarked)
        | (rename_i empty
           rw [← isPath, if_pos (by exact empty)])
        | (rename_i filled
           rw [← isPath, if_neg (by exact filled)]
           rfl)
  · intro found
    rcases found with ⟨scheme, isUrl, rfl⟩
    rcases isUrl.rest with ⟨tail, rfl, marked, isPath⟩
    have apart : ∀ char ∈ scheme, decide (char ≠ ':') = true := by
      intro char member
      apply decide_eq_true
      intro colon
      have alnum := List.all_eq_true.mp isUrl.spelled.2 char member
      rw [colon] at alnum
      revert alnum
      decide
    have after : afterPrefix "://" ((scheme ++ ("://".toList ++ (authority ++ tail))).dropWhile
        fun char => decide (char ≠ ':')) = some (authority ++ tail) := by
      rw [List.dropWhile_append_of_pos apart]
      exact afterPrefix_eq_some.mpr rfl
    have start : (scheme ++ ("://".toList ++ (authority ++ tail))).takeWhile
        (fun char => decide (char ≠ ':')) = scheme := by
      rw [List.takeWhile_append_of_pos apart]
      exact List.append_nil _
    have taken : (authority ++ tail).takeWhile beforeMark = authority := by
      rw [List.takeWhile_append_of_pos isUrl.unmarked]
      cases tail with
      | nil => exact List.append_nil _
      | cons mark tail =>
        rw [List.takeWhile_cons_of_neg (by simp [marked mark rfl]), List.append_nil]
    have left : (authority ++ tail).dropWhile beforeMark = tail := by
      rw [List.dropWhile_append_of_pos isUrl.unmarked]
      cases tail with
      | nil => rfl
      | cons mark tail => rw [List.dropWhile_cons_of_neg (by simp [marked mark rfl])]
    have shaped : ¬(scheme = [] ∨ ¬scheme.all Char.isAlphanum = true) :=
      not_or.mpr ⟨isUrl.spelled.1, not_not_intro isUrl.spelled.2⟩
    unfold splitUrl
    simp only [after, start, if_neg shaped]
    show some (lowercase scheme, (authority ++ tail).takeWhile beforeMark,
      if ((authority ++ tail).dropWhile beforeMark).takeWhile inPath = [] then ['/']
      else ((authority ++ tail).dropWhile beforeMark).takeWhile inPath) = _
    rw [taken, left, isPath]

theorem splitOnceAt_colon {chars before after : List Char} :
    splitOnceAt ':' chars = some (before, after) ↔
      chars = before ++ ':' :: after ∧ ':' ∉ before := by
  unfold splitOnceAt
  constructor
  · intro cut
    cases rest : chars.dropWhile fun char => decide (char ≠ ':') with
    | nil =>
      rw [rest] at cut
      cases cut
    | cons mark tail =>
      rw [rest] at cut
      cases cut
      have isColon : mark = ':' := by
        have head := List.head?_dropWhile_not (fun char => decide (char ≠ ':')) chars
        rw [rest] at head
        simpa using head
      subst isColon
      refine ⟨?_, fun member => ?_⟩
      · rw [← rest]
        exact List.takeWhile_append_dropWhile.symm
      · have apart := List.mem_takeWhile_imp member
        simp at apart
  · intro found
    rcases found with ⟨rfl, absent⟩
    have apart : ∀ char ∈ before, decide (char ≠ ':') = true :=
      fun char member => decide_eq_true fun same => absent (same ▸ member)
    rw [List.dropWhile_append_of_pos apart, List.takeWhile_append_of_pos apart]
    simp

theorem splitOnceAt_none {chars : List Char} : splitOnceAt ':' chars = none ↔ ':' ∉ chars := by
  constructor
  · intro cut member
    rcases List.append_of_mem member with ⟨before, after, split⟩
    have rest : chars.dropWhile (fun char => decide (char ≠ ':')) ≠ [] := by
      intro empty
      have all := List.dropWhile_eq_nil_iff.mp empty ':' member
      simp at all
    unfold splitOnceAt at cut
    split at cut
    · cases cut
    · rename_i empty
      exact rest empty
  · intro absent
    unfold splitOnceAt
    have empty : chars.dropWhile (fun char => decide (char ≠ ':')) = [] :=
      List.dropWhile_eq_nil_iff.mpr fun char member =>
        decide_eq_true fun same => absent (same ▸ member)
    rw [empty]

theorem splitAuthority_iff : splitAuthority authority usual = some (host, port) ↔
    IsAuthority authority usual host port := by
  unfold splitAuthority
  by_cases marked : (authority.any fun char =>
      decide (char = '@' ∨ char = '\\' ∨ char = '[' ∨ char = ']')) = true
  · rw [if_pos marked]
    refine iff_of_false (fun found => by cases found) fun isAuthority => ?_
    rcases List.any_eq_true.mp marked with ⟨char, member, isMark⟩
    have plain := isAuthority.plain char member
    have mark := of_decide_eq_true isMark
    tauto
  · rw [if_neg marked]
    have plain : ∀ char ∈ authority,
        char ≠ '@' ∧ char ≠ '\\' ∧ char ≠ '[' ∧ char ≠ ']' := by
      intro char member
      have unmarked : ¬(char = '@' ∨ char = '\\' ∨ char = '[' ∨ char = ']') :=
        fun mark => marked (List.any_eq_true.mpr ⟨char, member, decide_eq_true mark⟩)
      tauto
    cases cut : splitOnceAt ':' authority with
    | none =>
      have absent := splitOnceAt_none.mp cut
      constructor
      · intro found
        cases found
        exact ⟨plain, .inl ⟨absent, rfl, rfl⟩⟩
      · intro isAuthority
        rcases isAuthority.cut with ⟨_, rfl, rfl⟩ | ⟨digits, split, _⟩
        · rfl
        · exact absurd (split ▸ List.mem_append_right _ (List.mem_cons_self ..)) absent
    | some parts =>
      rcases parts with ⟨before, digits⟩
      rcases splitOnceAt_colon.mp cut with ⟨split, absent⟩
      have colon : ':' ∈ authority := split ▸ List.mem_append_right _ (List.mem_cons_self ..)
      dsimp only
      constructor
      · intro found
        split_ifs at found with bad
        rw [not_or, not_or, not_not] at bad
        unfold parsePort at found
        simp only at found
        split_ifs at found with small
        dsimp only at found
        split_ifs at found with zero
        cases found
        refine ⟨plain, .inr ⟨digits, split, absent, bad.1, Nat.le_of_not_lt bad.2.1, bad.2.2,
          ?_, zero⟩⟩
        rw [UInt16.toNat_ofNat_of_lt' small]
      · intro isAuthority
        rcases isAuthority.cut with ⟨none_, _⟩ |
          ⟨others, again, apart, filled, few, all, value, named⟩
        · exact absurd colon none_
        · have same := splitOnceAt_colon.mpr ⟨again, apart⟩
          rw [cut] at same
          cases same
          have good : ¬(digits = [] ∨ 5 < byteLen digits ∨ ¬digits.all Char.isDigit = true) := by
            rw [not_or, not_or, not_not]
            exact ⟨filled, Nat.not_lt.mpr few, all⟩
          have small : Nat.ofDigitChars 10 digits 0 < 2 ^ 16 := value ▸ port.toNat_lt
          rw [if_neg good, parsePort]
          simp only [if_pos small]
          rw [value, UInt16.ofNat_toNat, if_neg named]

end Urls

/-! ## Targets that match nothing -/

/-- What user info, a backslash or an address literal is written with. -/
def MARKS : List Char := ['@', '\\', '[', ']']

/-- A host with a mark, a trailing dot, an empty label or a number as its last label. -/
def Spoiled (host : List Char) : Prop :=
  (∃ char ∈ host, char ∈ MARKS) ∨ host.getLast? = some '.' ∨ [] ∈ splitAt '.' host ∨
    ((splitAt '.' host).getLast?.getD []).all Char.isDigit = true

section Spoiled

variable {host name : List Char}

theorem toLower_cases (char : Char) : char.toLower = char ∨
    97 ≤ char.toLower.toNat ∧ char.toLower.toNat ≤ 122 ∧ 65 ≤ char.toNat ∧ char.toNat ≤ 90 := by
  unfold Char.toLower
  split
  · rename_i upper
    have above : 65 ≤ char.toNat := upper.1
    have below : char.toNat ≤ 90 := upper.2
    have folded : (char.val + ('a'.val - 'A'.val)).toNat = char.toNat + 32 := by
      rw [UInt32.toNat_add]
      have distance : ('a'.val - 'A'.val).toNat = 32 := by decide
      rw [distance]
      exact Nat.mod_eq_of_lt (by show char.toNat + 32 < _; omega)
    apply Or.inr
    show 97 ≤ (char.val + ('a'.val - 'A'.val)).toNat ∧
      (char.val + ('a'.val - 'A'.val)).toNat ≤ 122 ∧ _
    omega
  · exact .inl rfl

theorem toLower_eq_dot {char : Char} : char.toLower = '.' ↔ char = '.' := by
  constructor
  · intro dot
    rcases toLower_cases char with same | ⟨above, _⟩
    · exact same.symm.trans dot
    · have low : ¬97 ≤ '.'.toNat := by decide
      exact absurd (dot ▸ above) low
  · intro dot
    rw [dot]
    decide

theorem splitAt_lowercase (host : List Char) :
    splitAt '.' (lowercase host) = (splitAt '.' host).map lowercase := by
  induction host with
  | nil => rfl
  | cons char host induction =>
    rw [splitAt, splitAt, lowercase, List.map_cons, List.splitOnP_cons_eq_if_modifyHead,
      List.splitOnP_cons_eq_if_modifyHead, ← lowercase, ← splitAt, ← splitAt, induction]
    by_cases dot : char = '.'
    · rw [if_pos (decide_eq_true (toLower_eq_dot.mpr dot)), if_pos (decide_eq_true dot)]
      rfl
    · rw [if_neg (by simpa using mt toLower_eq_dot.mp dot), if_neg (by simpa using dot)]
      cases splitAt '.' host with
      | nil => rfl
      | cons label rest => rfl

theorem lowercase_digits {label : List Char} (digits : label.all Char.isDigit = true) :
    lowercase label = label := by
  refine (List.map_congr_left fun char member => ?_).trans (List.map_id' label)
  exact toLower_of_isHostChar (isHostChar_of_isDigit (List.all_eq_true.mp digits char member))

theorem IsName.unmarked (isName : IsName host) : ∀ char ∈ host, char ∉ MARKS := by
  intro char member isMark
  have isHost : isHostChar char = true := by
    rcases mem_splitOnP (· = '.') member with dot | ⟨label, among, within⟩
    · simp [isHostChar, of_decide_eq_true dot]
    · have ok := isName.labels label among
      simp only [labelOk, Bool.and_eq_true, List.all_eq_true] at ok
      simp [isHostChar, ok.2 char within]
  apply @apart_of_isHostChar _ isHost char _ rfl
  simp only [MARKS, List.mem_cons, List.not_mem_nil, or_false] at isMark ⊢
  tauto

theorem IsName.not_spoiled (isName : IsName (lowercase name)) : ¬Spoiled name := by
  intro spoiled
  rcases spoiled with ⟨char, member, isMark⟩ | dot | empty | digits
  · have kept : char.toLower = char := by
      simp only [MARKS, List.mem_cons, List.not_mem_nil, or_false] at isMark
      rcases isMark with rfl | rfl | rfl | rfl <;> decide
    apply isName.unmarked char _ isMark
    rw [← kept]
    exact List.mem_map_of_mem member
  · apply isName.checks
    refine .inr (.inr (.inr ?_))
    rw [lowercase, List.getLast?_map, dot]
    decide
  · have ok := isName.labels [] (by
      rw [splitAt_lowercase]
      exact List.mem_map.mpr ⟨[], empty, rfl⟩)
    rw [labelOk_nil] at ok
    cases ok
  · apply isName.name
    rw [splitAt_lowercase, List.getLast?_map]
    cases last : (splitAt '.' name).getLast? with
    | none => rfl
    | some label =>
      rw [last] at digits
      have all : label.all Char.isDigit = true := digits
      rw [Option.map_some, Option.getD_some, lowercase_digits all]
      exact all

end Spoiled

/-! ## Bindings -/

namespace Binding

/-- What a binding matches, what it never matches, and that its text form is its own. -/
structure AsWritten (binding : Binding) : Prop where
  host : ∀ name bound, binding = .host name bound → ∀ target port,
    binding.matchesEndpoint target port = true ↔
      port = bound ∧ Names name.toList (lowercase target.toList)
  url : ∀ scheme name bound pattern, binding = .url scheme name bound pattern → ∀ target,
    binding.matchesUrl target = true ↔ ∃ written authority path host port usual,
      IsUrl target.toList written authority path ∧ lowercase written = scheme.toList ∧
        defaultPort scheme.toList = some usual ∧ IsAuthority authority usual host port ∧
          port = bound ∧ Names name.toList (lowercase host) ∧
            Wildcard.Spells (Path.tokens (utf8 pattern)) (utf8 (String.ofList path))
  app : ∀ appId, binding = .app appId → ∀ target,
    binding.matchesApp target = true ↔ target = appId
  spoiledEndpoint : ∀ target, Spoiled target.toList → ∀ port,
    binding.matchesEndpoint target port = false
  spoiledUrl : ∀ target written authority path, IsUrl target.toList written authority path →
    (∃ char ∈ authority, char ∈ MARKS) ∨ Spoiled (authority.takeWhile (· ≠ ':')) →
      binding.matchesUrl target = false
  text : parse binding.toText = some binding

variable {text : String} {binding : Binding}

theorem parse_named (parsed : parse text = some binding) :
    (∀ name bound, binding = .host name bound → hostOk name.toList true = some name.toList) ∧
      ∀ scheme name bound pattern, binding = .url scheme name bound pattern →
        hostOk name.toList true = some name.toList := by
  unfold parse at parsed
  split at parsed
  · simp only [Option.bind_eq_bind, Option.bind_eq_some_iff] at parsed
    rcases parsed with ⟨_, _, host, ok, isBinding⟩
    cases isBinding
    refine ⟨fun name bound same => ?_, fun _ _ _ _ same => (by cases same)⟩
    cases same
    rw [String.toList_ofList]
    exact hostOk_hostOk ok
  · split at parsed
    · simp only [Option.bind_eq_bind, Option.bind_eq_some_iff] at parsed
      rcases parsed with ⟨_, _, _, _, _, _, host, ok, isBinding⟩
      cases isBinding
      refine ⟨fun _ _ same => (by cases same), fun scheme name bound pattern same => ?_⟩
      cases same
      rw [String.toList_ofList]
      exact hostOk_hostOk ok
    · split at parsed
      · split_ifs at parsed
        cases parsed
        exact ⟨fun _ _ same => (by cases same), fun _ _ _ _ same => (by cases same)⟩
      · cases parsed

theorem isName_of_names {bound host : List Char} (ok : hostOk bound true = some bound)
    (names : Names bound host) : IsName host := by
  unfold Names at names
  cases stripped : afterPrefix "*." bound with
  | none =>
    rw [stripped] at names
    exact names ▸ isName_of_bound ok stripped
  | some apex =>
    rw [stripped] at names
    exact names.1

theorem matchesUrl_reads {target : String} (matched : binding.matchesUrl target = true) :
    ∃ written authority path host port usual, IsUrl target.toList written authority path ∧
      defaultPort (lowercase written) = some usual ∧ IsAuthority authority usual host port ∧
        IsName (lowercase host) := by
  unfold matchesUrl at matched
  split at matched
  · cases matched
  · rename_i folded authority path split
    split at matched
    · cases matched
    · rename_i host port cut
      split at matched
      · cases matched
      · rename_i name ok
        rcases splitUrl_iff.mp split with ⟨written, isUrl, rfl⟩
        rcases Option.bind_eq_some_iff.mp cut with ⟨usual, known, isAuthority⟩
        exact ⟨written, authority, path, host, port, usual, isUrl, known,
          splitAuthority_iff.mp isAuthority, (hostOk_target.mp ok).2⟩

theorem bindings_match (parsed : parse text = some binding) : binding.AsWritten := by
  constructor
  · intro name bound isHost target port
    have ok := (parse_named parsed).1 name bound isHost
    rw [isHost]
    unfold matchesEndpoint
    constructor
    · intro matched
      split at matched
      · rename_i pattern again folded same isOk
        cases same
        rcases hostOk_target.mp isOk with ⟨rfl, isName⟩
        simp only [Bool.and_eq_true, decide_eq_true_eq] at matched
        exact ⟨matched.1.symm, (hostMatch_iff isName).mp matched.2⟩
      · cases matched
    · intro found
      have isName := isName_of_names ok found.2
      rw [hostOk_target.mpr ⟨rfl, isName⟩]
      simp only [Bool.and_eq_true, decide_eq_true_eq]
      exact ⟨found.1.symm, (hostMatch_iff isName).mpr found.2⟩
  · intro scheme name bound pattern isUrl target
    have ok := (parse_named parsed).2 scheme name bound pattern isUrl
    rw [isUrl]
    constructor
    · intro matched
      unfold matchesUrl at matched
      split at matched
      · cases matched
      · rename_i folded authority path split
        split at matched
        · cases matched
        · rename_i host port cut
          split at matched
          · cases matched
          · rename_i folds isOk
            rcases splitUrl_iff.mp split with ⟨written, reads, rfl⟩
            rcases Option.bind_eq_some_iff.mp cut with ⟨usual, known, isAuthority⟩
            rcases hostOk_target.mp isOk with ⟨rfl, isName⟩
            simp only [Bool.and_eq_true, decide_eq_true_eq] at matched
            rcases matched with ⟨⟨⟨sameScheme, samePort⟩, sameHost⟩, inGlob⟩
            exact ⟨written, authority, path, host, port, usual, reads, sameScheme.symm,
              sameScheme ▸ known, splitAuthority_iff.mp isAuthority, samePort.symm,
              (hostMatch_iff isName).mp sameHost, Path.glob_eq_true_iff.mp inGlob⟩
    · intro found
      rcases found with ⟨written, authority, path, host, port, usual, reads, sameScheme, known,
        isAuthority, samePort, names, spells⟩
      have isName := isName_of_names ok names
      have split : splitUrl target.toList = some (lowercase written, authority, path) :=
        splitUrl_iff.mpr ⟨written, reads, rfl⟩
      have cut : (defaultPort (lowercase written)).bind (splitAuthority authority) =
          some (host, port) := by
        rw [sameScheme, known]
        exact splitAuthority_iff.mpr isAuthority
      unfold matchesUrl
      simp only [split, cut, hostOk_target.mpr ⟨rfl, isName⟩, Bool.and_eq_true, decide_eq_true_eq]
      exact ⟨⟨⟨sameScheme.symm, samePort.symm⟩, (hostMatch_iff isName).mpr names⟩,
        Path.glob_eq_true_iff.mpr spells⟩
  · intro appId isApp target
    rw [isApp, matchesApp, decide_eq_true_iff, Binding.app.injEq]
    exact eq_comm
  · intro target spoiled port
    unfold matchesEndpoint
    split
    · rename_i isOk
      exact absurd spoiled (hostOk_target.mp isOk).2.not_spoiled
    · rfl
  · intro target written authority path reads spoiled
    apply Bool.eq_false_iff.mpr
    intro matched
    rcases matchesUrl_reads matched with ⟨again, authority', path', host, port, usual, reads',
      _, isAuthority, isName⟩
    have same : some (lowercase written, authority, path) =
        some (lowercase again, authority', path') := by
      rw [← splitUrl_iff.mpr ⟨written, reads, rfl⟩, ← splitUrl_iff.mpr ⟨again, reads', rfl⟩]
    simp only [Option.some.injEq, Prod.mk.injEq] at same
    rcases same with ⟨_, rfl, _⟩
    rcases spoiled with ⟨char, member, isMark⟩ | spoiled
    · have plain := isAuthority.plain char member
      simp only [MARKS, List.mem_cons, List.not_mem_nil, or_false] at isMark
      tauto
    · have part : authority.takeWhile (fun char => decide (char ≠ ':')) = host := by
        rcases isAuthority.cut with ⟨absent, rfl, _⟩ | ⟨digits, rfl, apart, _⟩
        · exact List.takeWhile_eq_self_iff.mpr fun char member =>
            decide_eq_true fun colon => absent (colon ▸ member)
        · have before : ∀ char ∈ host, decide (char ≠ ':') = true :=
            fun char member => decide_eq_true fun colon => apart (colon ▸ member)
          rw [List.takeWhile_append_of_pos before]
          simp
      rw [part] at spoiled
      exact isName.not_spoiled spoiled
  · exact (parse_toText parsed).1

/-- A pattern for the names under one, at the usual port. -/
theorem bindings_match_pattern : (host "*.acme.com" 443).AsWritten :=
  @bindings_match "host:*.acme.com" _ (by decide)

end Binding

end EclipseOS.Brokerd
