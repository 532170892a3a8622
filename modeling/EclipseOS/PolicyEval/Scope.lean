import EclipseOS.PolicyEval.Cbor

/-! # Scopes

Sensitivity classes, globs and regexes, as the table and the classifier use
them. -/

namespace EclipseOS.PolicyEval

open Foundation

/-- Data sensitivity class. Ordered: `public < private < secret`. -/
inductive Class where
  | «public»
  | «private»
  | secret
  deriving DecidableEq

namespace Class

def rank : Class → Nat
  | «public» => 0
  | «private» => 1
  | secret => 2

/-- `Ord::max`. -/
def max (left right : Class) : Class := if left.rank ≤ right.rank then right else left

end Class

/-- A `*`/`?` glob. There are no character classes. -/
structure Glob where
  pattern : String
  deriving DecidableEq

namespace Glob

def new (pattern : String) : Glob := ⟨pattern⟩

def asStr (glob : Glob) : String := glob.pattern

def star : UInt8 := 42

def question : UInt8 := 63

/-- The wildcard loop. `pattern` and `text` are what the two positions have
left; `mark` is what was left of both after the last star. -/
def scan (pattern text : Bytes) (mark : Option (Bytes × Bytes)) : Bool :=
  match text with
  | [] => (pattern.dropWhile (· = star)).isEmpty
  | byte :: text =>
    if pattern.head? = some question ∨ pattern.head? = some byte then
      scan pattern.tail text mark
    else if pattern.head? = some star then
      scan pattern.tail (byte :: text) (some (pattern.tail, byte :: text))
    else
      match mark with
      | some (afterStar, _ :: marked) => scan afterStar marked (some (afterStar, marked))
      | _ => false
  termination_by
    (max text.length (mark.elim 0 fun marked => marked.2.length), text.length,
      pattern.length)
  decreasing_by
    · simp only [Prod.lex_def, List.length_cons]
      omega
    · rename_i starred
      have shorter : pattern.tail.length < pattern.length := by
        cases pattern with
        | nil => cases starred
        | cons _ _ => exact Nat.lt_succ_self _
      simp only [Prod.lex_def, List.length_cons, Option.elim_some, Nat.max_self, true_and]
      omega
    · simp only [Prod.lex_def, List.length_cons, Option.elim_some, Nat.max_self]
      omega

def «matches» (glob : Glob) (text : String) : Bool :=
  scan (Cbor.utf8 glob.pattern) (Cbor.utf8 text) none

end Glob

/-- The regex engine: which sources compile under a size limit, and what a
compiled one matches. -/
class RegexEngine where
  compiles : (sizeLimit : Nat) → (source : String) → Bool
  isMatch : (source : String) → (text : String) → Bool

/-- The engine on sources that are plain words: each compiles and matches where it
occurs. -/
@[reducible] def wordEngine : RegexEngine where
  compiles _ source := source.toList.all Char.isAlpha
  isMatch source text := (Cbor.utf8 text).tails.any (Cbor.utf8 source).isPrefixOf

/-- A compiled regex may use at most this much memory. -/
def regexLimit : Nat := 2 ^ 20

structure Regex [RegexEngine] where
  source : String
  compiled : RegexEngine.compiles regexLimit source = true
  deriving DecidableEq

namespace Regex

variable [RegexEngine]

def build (source : String) : Option Regex :=
  if compiled : RegexEngine.compiles regexLimit source = true then
    some ⟨source, compiled⟩
  else none

def asStr (regex : Regex) : String := regex.source

def isMatch (regex : Regex) (text : String) : Bool :=
  RegexEngine.isMatch regex.source text

theorem build_eq_some {source : String} {regex : Regex} :
    build source = some regex ↔ regex.source = source := by
  unfold build
  constructor
  · intro built
    split at built
    · cases built
      rfl
    · cases built
  · rintro rfl
    simp [regex.compiled]

end Regex

/-! ## Scope clauses -/

inductive WorkspaceSel where
  | id (id : UInt64)
  | own
  | human
  deriving DecidableEq

inductive OutputSel where
  | id (id : String)
  | virtual
  | physical
  deriving DecidableEq

/-- One parsed scope clause. A title is kept as the anchored source that compiled. -/
inductive Scope where
  | workspace (selected : WorkspaceSel)
  | output (selected : OutputSel)
  | appId (glob : Glob)
  | title (source : String)
  | handle (handle : UInt64)
  | launchedBySelf (required : Bool)
  | «class» («class» : Class)
  | content
  deriving DecidableEq

inductive ScopeError where
  | malformed
  | unknownKind
  | badValue
  deriving DecidableEq

/-- `str::parse::<u64>`: an optional plus sign, then digits. -/
def parseU64 (text : String) : Option UInt64 :=
  let digits := match text.toList with
    | '+' :: digits => digits
    | digits => digits
  if digits ≠ [] ∧ digits.all Char.isDigit then
    let value := digits.foldl (fun value digit => 10 * value + (digit.toNat - '0'.toNat)) 0
    if value < 2 ^ 64 then some (UInt64.ofNat value) else none
  else none

/-- `str::split_once(':')`. -/
def splitOnce (text : String) : Option (String × String) :=
  match text.toList.dropWhile (· ≠ ':') with
  | _ :: value => some (String.ofList (text.toList.takeWhile (· ≠ ':')), String.ofList value)
  | [] => none

/-- What a regex may use at most when no limit is set. -/
def defaultRegexLimit : Nat := 10 * 2 ^ 20

namespace Scope

variable [RegexEngine]

def anchored (value : String) : String := "^(?:" ++ value ++ ")$"

/-- Parses one `kind:value` clause. -/
def parse (text : String) : Except ScopeError Scope :=
  match splitOnce text with
  | none => .error .malformed
  | some (kind, value) =>
    if value = "" then
      .error .malformed
    else
      match kind with
      | "workspace" =>
        match value with
        | "own" => .ok (.workspace .own)
        | "human" => .ok (.workspace .human)
        | id =>
          match parseU64 id with
          | some id => .ok (.workspace (.id id))
          | none => .error .badValue
      | "output" =>
        match value with
        | "virtual" => .ok (.output .virtual)
        | "physical" => .ok (.output .physical)
        | id => .ok (.output (.id id))
      | "app_id" => .ok (.appId (Glob.new value))
      | "title" =>
        if RegexEngine.compiles defaultRegexLimit (anchored value) then
          .ok (.title (anchored value))
        else
          .error .badValue
      | "handle" =>
        match parseU64 value with
        | some number => .ok (.handle number)
        | none => .error .badValue
      | "principal" =>
        match value with
        | "launched_by_self" => .ok (.launchedBySelf true)
        | "any" => .ok (.launchedBySelf false)
        | _ => .error .badValue
      | "class" =>
        match value with
        | "public" => .ok (.«class» .«public»)
        | "private" => .ok (.«class» .«private»)
        | "secret" => .ok (.«class» .secret)
        | _ => .error .badValue
      | "url" | "path" | "host" | "node_role" => .ok .content
      | _ => .error .unknownKind

end Scope

/-! ## What clauses read as -/

theorem splitOnce_colon {kind value : String} (apart : ':' ∉ kind.toList) :
    splitOnce (kind ++ ":" ++ value) = some (kind, value) := by
  have before : ∀ char ∈ kind.toList, (decide (char ≠ ':')) = true := by
    intro char member
    exact decide_eq_true fun same => apart (same ▸ member)
  have text : (kind ++ ":" ++ value).toList = kind.toList ++ ':' :: value.toList := by simp
  rw [splitOnce, text, List.dropWhile_append_of_pos before, List.takeWhile_append_of_pos before]
  simp

theorem mem_of_splitOnce {text kind value : String} (split : splitOnce text = some (kind, value))
    {char : Char} (member : char ∈ value.toList) : char ∈ text.toList := by
  unfold splitOnce at split
  split at split
  · rename_i colon rest dropped
    cases split
    rw [String.toList_ofList] at member
    have isSuffix := List.dropWhile_suffix (fun char => decide (char ≠ ':')) (l := text.toList)
    rw [dropped] at isSuffix
    exact isSuffix.mem (List.mem_cons_of_mem _ member)
  · cases split

theorem parseU64_digits {text : String} (notEmpty : text.toList ≠ [])
    (digits : ∀ char ∈ text.toList, char.isDigit = true)
    (fits : Nat.ofDigitChars 10 text.toList 0 < 2 ^ 64) :
    parseU64 text = some (UInt64.ofNat (Nat.ofDigitChars 10 text.toList 0)) := by
  rw [Nat.ofDigitChars_eq_foldl] at fits ⊢
  unfold parseU64
  split
  · rename_i rest signed
    have plus := digits '+' (signed ▸ List.mem_cons_self)
    cases plus
  · exact (if_pos ⟨notEmpty, List.all_eq_true.mpr digits⟩).trans (if_pos fits)

theorem parseU64_toString (n : UInt64) : parseU64 (toString n) = some n := by
  have spelled : (toString n).toList = Nat.toDigits 10 n.toNat := Nat.toList_repr
  have value : Nat.ofDigitChars 10 (toString n).toList 0 = n.toNat := by
    rw [spelled]
    exact Nat.ofDigitChars_ten_toDigits
  rw [parseU64_digits, value]
  · simp
  · rw [spelled]
    exact Nat.toDigits_ne_nil
  · rw [spelled]
    exact fun char => Nat.isDigit_of_mem_toDigits (by decide) (by decide)
  · rw [value]
    exact n.toNat_lt

namespace Scope

variable [RegexEngine]

theorem parse_appId {value : String} (some : value ≠ "") :
    parse ("app_id:" ++ value) = .ok (.appId (Glob.new value)) := by
  have split : splitOnce ("app_id:" ++ value) = _ :=
    @splitOnce_colon "app_id" value (by decide)
  rw [parse, split]
  simp only [if_neg some]

theorem parse_handle (handle : UInt64) :
    parse ("handle:" ++ toString handle) = .ok (.handle handle) := by
  have split : splitOnce ("handle:" ++ toString handle) = _ :=
    @splitOnce_colon "handle" (toString handle) (by decide)
  have notEmpty : toString handle ≠ "" := by
    intro empty
    have parsed := parseU64_toString handle
    rw [empty] at parsed
    cases parsed
  rw [parse, split]
  simp only [if_neg notEmpty, parseU64_toString]

theorem pattern_of_parse {text : String} {glob : Glob} (parsed : parse text = .ok (.appId glob)) :
    glob.pattern ≠ "" ∧ ∀ char ∈ glob.pattern.toList, char ∈ text.toList := by
  unfold parse at parsed
  split at parsed
  · cases parsed
  · rename_i kind value split
    split at parsed
    · cases parsed
    · rename_i notEmpty
      have pattern : glob.pattern = value := by
        repeat' split at parsed
        all_goals cases parsed
        rfl
      rw [pattern]
      exact ⟨notEmpty, fun char => mem_of_splitOnce split⟩

end Scope

end EclipseOS.PolicyEval
