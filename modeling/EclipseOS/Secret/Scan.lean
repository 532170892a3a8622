import EclipseOS.Foundation.BigEndian
import Mathlib.Data.List.Basic
import Mathlib.Data.List.Infix
import Mathlib.Data.List.TakeWhile

/-! # The login scanner

`ec-secret` reads the terminal output of the login command (scan.rs): escapes
are stripped byte by byte, and after each chunk the text so far is looked
through for the authorize URL, the prompt for a code and the token. -/

namespace EclipseOS.Secret

open Foundation

def ascii (text : String) : Bytes := text.toList.map fun char => UInt8.ofNat char.toNat

namespace Scan

def tokenPrefix : Bytes := ascii "sk-ant-oat01-"

/-- A token tail shorter than this is not a token. -/
def minTail : Nat := 16

def maxText : Nat := 64 * 1024
def keepText : Nat := 32 * 1024
def maxOsc : Nat := 4096

def https : Bytes := ascii "https://"
def promptWords : Bytes × List Bytes := (ascii "Paste", [ascii "code", ascii "here"])

/-- What the scanner reports, once each. The URL and the token are runs of ASCII
bytes, so their bytes are their text. -/
inductive Event where
  | url (uri : Bytes)
  | promptReady
  | token (value : Bytes)
  deriving DecidableEq

inductive St where
  | ground
  | escape
  | skip
  | csi
  | osc
  | oscEscape
  | str
  | strEscape
  deriving DecidableEq

def isAsciiGraphic (byte : UInt8) : Bool := 0x21 ≤ byte && byte ≤ 0x7e

def isAsciiWhitespace (byte : UInt8) : Bool :=
  byte == 0x20 || byte == 0x09 || byte == 0x0a || byte == 0x0c || byte == 0x0d

def isAsciiAlphanumeric (byte : UInt8) : Bool :=
  (0x30 ≤ byte && byte ≤ 0x39) || (0x41 ≤ byte && byte ≤ 0x5a) || (0x61 ≤ byte && byte ≤ 0x7a)

/-- `A-Z a-z 0-9 _ -`. -/
def isTokenChar (byte : UInt8) : Bool :=
  isAsciiAlphanumeric byte || byte == 0x5f || byte == 0x2d

/-- Where `needle` first stands in `hay`. -/
def find : (hay needle : Bytes) → Option Nat
  | [], _ => none
  | byte :: rest, needle =>
    if needle.isPrefixOf (byte :: rest) then some 0 else (find rest needle).map (· + 1)

/-- The words in order at the start of `text`, each after a run of whitespace. -/
def wordsFollow : (text : Bytes) → (words : List Bytes) → Bool
  | _, [] => true
  | text, word :: words =>
    let gap := (text.takeWhile isAsciiWhitespace).length
    gap != 0 && word.isPrefixOf (text.drop gap) &&
      wordsFollow (text.drop (gap + word.length)) words

/-- The first word is at the start of `text` and the others follow it. -/
def startsWords (text : Bytes) (words : Bytes × List Bytes) : Bool :=
  words.1.isPrefixOf text && wordsFollow (text.drop words.1.length) words.2

/-- The words in order, separated by any run of whitespace: every place where the
first word stands is tried in turn. -/
def hasWords : (text : Bytes) → (words : Bytes × List Bytes) → Bool
  | [], _ => false
  | byte :: rest, words => startsWords (byte :: rest) words || hasWords rest words

/-- The search for a token in what is left of the text. Every round passes at least the
prefix it found, so a round for each byte is more than enough. -/
def findTokenIn (eof : Bool) : (rounds : Nat) → (text : Bytes) → Option Bytes
  | 0, _ => none
  | rounds + 1, text =>
    match find text tokenPrefix with
    | none => none
    | some found =>
      let start := found + tokenPrefix.length
      let tail := ((text.drop start).takeWhile isTokenChar).length
      let stop := start + tail
      if stop = text.length ∧ eof = false then none
      else if minTail ≤ tail then some ((text.take stop).drop found)
      else findTokenIn eof rounds (text.drop (max stop (found + 1)))

/-- The first complete token: the prefix and a run of token bytes, ended by any other
byte or by the end of the stream. -/
def findToken (text : Bytes) (eof : Bool) : Option Bytes :=
  findTokenIn eof text.length text

structure Scanner where
  esc : St
  /-- CSI parameters or OSC body. -/
  param : Bytes
  text : Bytes
  /-- The first `https://` OSC 8 target. -/
  link : Option Bytes
  linkClosed : Bool
  urlDone : Bool
  promptDone : Bool
  tokenDone : Bool
  deriving DecidableEq

namespace Scanner

def new : Scanner :=
  { esc := .ground, param := [], text := [], link := none, linkClosed := false,
    urlDone := false, promptDone := false, tokenDone := false }

/-- `text.push`. -/
def push (scanner : Scanner) (byte : UInt8) : Scanner :=
  { scanner with text := scanner.text ++ [byte] }

/-- `param.push` below the bound on what is kept. -/
def pushParam (scanner : Scanner) (byte : UInt8) : Scanner :=
  if scanner.param.length < maxOsc then { scanner with param := scanner.param ++ [byte] }
  else scanner

/-- `ESC ] 8 ; params ; URI` opens a hyperlink, an empty URI closes it. -/
def endOsc (scanner : Scanner) : Scanner :=
  let ended := { scanner with esc := .ground, param := [] }
  match (ascii "8;").isPrefixOf? scanner.param with
  | none => ended
  | some rest =>
    match rest.findIdx? (· == 0x3b) with
    | none => ended
    | some index =>
      let uri := rest.drop (index + 1)
      if uri.isEmpty then
        if scanner.link.isSome then { ended with linkClosed := true } else ended
      else if scanner.link.isNone && https.isPrefixOf uri && uri.all isAsciiGraphic then
        { ended with link := some uri }
      else ended

/-- A byte after `ESC`. -/
def stepEscape (scanner : Scanner) (byte : UInt8) : Scanner :=
  { scanner with
    param := []
    esc :=
      if byte = 0x5b then .csi
      else if byte = 0x5d then .osc
      else if byte ∈ ascii "PX^_" then .str
      else if byte ∈ ascii "()*+#" then .skip
      else if byte = 0x1b then .escape
      else .ground }

def step (scanner : Scanner) (byte : UInt8) : Scanner :=
  match scanner.esc with
  | .ground =>
    if byte = 0x1b then { scanner with esc := .escape }
    else if byte = 0x0d ∨ byte = 0x0a then scanner.push 0x0a
    else if byte = 0x09 then scanner.push 0x20
    else if byte ≤ 0x1f ∨ byte = 0x7f then scanner
    else scanner.push byte
  | .escape => scanner.stepEscape byte
  | .skip => { scanner with esc := .ground }
  | .csi =>
    if byte = 0x1b then { scanner with esc := .escape }
    else if byte ∈ ascii "GC" then { scanner.push 0x20 with esc := .ground }
    else if 0x40 ≤ byte ∧ byte ≤ 0x7e then { scanner with esc := .ground }
    else if 0x20 ≤ byte ∧ byte ≤ 0x3f then scanner.pushParam byte
    else scanner
  | .osc =>
    if byte = 0x07 then scanner.endOsc
    else if byte = 0x1b then { scanner with esc := .oscEscape }
    else scanner.pushParam byte
  | .oscEscape =>
    -- Anything but a backslash: the `ESC` began a new sequence.
    if byte = 0x5c then scanner.endOsc else scanner.endOsc.stepEscape byte
  | .str =>
    if byte = 0x07 then { scanner with esc := .ground }
    else if byte = 0x1b then { scanner with esc := .strEscape }
    else scanner
  | .strEscape =>
    if byte = 0x5c then { scanner with esc := .ground } else scanner.stepEscape byte

/-- The printed URL of a text, complete once something follows it. -/
def printedUrl (text : Bytes) : Option Bytes :=
  match find text https with
  | none => none
  | some found =>
    let run := (text.drop found).takeWhile isAsciiGraphic
    if found + run.length < text.length then some run else none

def findUrl (scanner : Scanner) : Option Bytes :=
  match scanner.link with
  | some uri => if scanner.linkClosed then some uri else none
  | none => printedUrl scanner.text

/-- What is kept of the text after a look at it. -/
def drained (text : Bytes) : Bytes :=
  if maxText < text.length then text.drop (text.length - keepText) else text

def scan (scanner : Scanner) (eof : Bool) : Scanner × List Event :=
  let url := if scanner.urlDone then none else scanner.findUrl
  let urlDone := scanner.urlDone || url.isSome
  let prompt := urlDone && !scanner.promptDone && hasWords scanner.text promptWords
  let token := if scanner.tokenDone then none else findToken scanner.text eof
  ({ scanner with
      urlDone := urlDone
      promptDone := scanner.promptDone || prompt
      tokenDone := scanner.tokenDone || token.isSome
      text := drained scanner.text },
    (url.map Event.url).toList ++ (if prompt then [.promptReady] else []) ++
      (token.map Event.token).toList)

def read (scanner : Scanner) (chunk : Bytes) : Scanner := chunk.foldl step scanner

def feed (scanner : Scanner) (chunk : Bytes) : Scanner × List Event :=
  (scanner.read chunk).scan false

def finish (scanner : Scanner) : Scanner × List Event := scanner.scan true

/-- The chunks fed in turn, and then the end of the stream. -/
def run (scanner : Scanner) : List Bytes → List Event
  | [] => scanner.finish.2
  | chunk :: chunks => (scanner.feed chunk).2 ++ (scanner.feed chunk).1.run chunks

end Scanner

/-- All that a stream cut into these chunks makes the scanner report. -/
def events (chunks : List Bytes) : List Event := Scanner.new.run chunks

end Scan

end EclipseOS.Secret

/-! ## Searching text that grows and is cut

What the searches of the scanner find in a text they still find where text is added
behind it, and what they miss in a text they miss in what is left of it. -/

namespace EclipseOS.Secret.Scan

open Foundation

section Runs

variable {α : Type*} {keeps : α → Bool} {text : List α}

theorem takeWhile_append_of_lt (more : List α)
    (stops : (text.takeWhile keeps).length < text.length) :
    (text ++ more).takeWhile keeps = text.takeWhile keeps := by
  rw [List.takeWhile_append, if_neg (Nat.ne_of_lt stops)]

theorem length_takeWhile_eq_iff :
    (text.takeWhile keeps).length = text.length ↔ ∀ entry ∈ text, keeps entry = true := by
  rw [← List.takeWhile_eq_self_iff]
  constructor
  · intro same
    exact (List.takeWhile_prefix keeps).eq_of_length same
  · intro same
    rw [same]

end Runs

variable {hay needle : Bytes} {found : Nat}

theorem prefix_of_find (here : find hay needle = some found) : needle <+: hay.drop found := by
  induction hay generalizing found with
  | nil => cases here
  | cons byte rest induction =>
    rw [find] at here
    split at here
    · rename_i stands
      cases here
      exact List.isPrefixOf_iff_prefix.mp stands
    · rcases Option.map_eq_some_iff.mp here with ⟨later, stands, rfl⟩
      exact induction stands

theorem length_le_of_find (here : find hay needle = some found) :
    found + needle.length ≤ hay.length ∨ needle = [] := by
  have stands := (prefix_of_find here).length_le
  rw [List.length_drop] at stands
  by_cases empty : needle = []
  · exact .inr empty
  · have := List.length_pos_iff.mpr empty
    left
    omega

theorem find_le (filled : needle ≠ []) {place : Nat} (stands : needle <+: hay.drop place) :
    ∃ found, find hay needle = some found ∧ found ≤ place := by
  induction hay generalizing place with
  | nil =>
    rw [List.drop_nil] at stands
    exact absurd (List.prefix_nil.mp stands) filled
  | cons byte rest induction =>
    rw [find]
    split
    · exact ⟨0, rfl, Nat.zero_le _⟩
    · rename_i missing
      cases place with
      | zero => exact absurd (List.isPrefixOf_iff_prefix.mpr stands) missing
      | succ place =>
        rcases induction stands with ⟨found, here, least⟩
        exact ⟨found + 1, by rw [here]; rfl, Nat.succ_le_succ least⟩

/-! ## The printed URL -/

theorem https_ne_nil : https ≠ [] := by decide

theorem printedUrl_drop {text : Bytes} (cut : Nat) (absent : Scanner.printedUrl text = none) :
    Scanner.printedUrl (text.drop cut) = none := by
  unfold Scanner.printedUrl at absent ⊢
  cases later : find (text.drop cut) https with
  | none => rfl
  | some place =>
    dsimp only
    have stands := prefix_of_find later
    rw [List.drop_drop] at stands
    rcases find_le https_ne_nil stands with ⟨found, here, least⟩
    rw [here] at absent
    dsimp only at absent
    split at absent
    · cases absent
    · rename_i incomplete
      have within := (length_le_of_find here).resolve_right https_ne_nil
      have short := (List.takeWhile_prefix (l := text.drop found) isAsciiGraphic).length_le
      rw [List.length_drop] at short
      -- The URL runs to the end of the text, and so does any that starts inside it.
      have whole : ((text.drop found).takeWhile isAsciiGraphic).length =
          (text.drop found).length := by
        rw [List.length_drop]
        omega
      have graphic := length_takeWhile_eq_iff.mp whole
      have inner : (((text.drop cut).drop place).takeWhile isAsciiGraphic).length =
          ((text.drop cut).drop place).length := by
        apply length_takeWhile_eq_iff.mpr
        intro byte member
        rw [List.drop_drop, ← Nat.sub_add_cancel least, Nat.add_comm _ found,
          ← List.drop_drop] at member
        exact graphic byte (List.mem_of_mem_drop member)
      have ending : ¬ place + (((text.drop cut).drop place).takeWhile isAsciiGraphic).length <
          (text.drop cut).length := by
        rw [inner, List.length_drop (l := text.drop cut)]
        omega
      rw [if_neg ending]

/-! ## The prompt's words -/

theorem wordsFollow_append {text : Bytes} {words : List Bytes} (more : Bytes)
    (filled : ∀ word ∈ words, word ≠ []) (follow : wordsFollow text words = true) :
    wordsFollow (text ++ more) words = true := by
  induction words generalizing text with
  | nil => rfl
  | cons word words induction =>
    rw [wordsFollow, Bool.and_eq_true, Bool.and_eq_true] at follow
    rcases follow with ⟨⟨gap, stands⟩, rest⟩
    have reach := List.isPrefixOf_iff_prefix.mp stands
    have size := List.length_pos_iff.mpr (filled word List.mem_cons_self)
    have bound := reach.length_le
    rw [List.length_drop] at bound
    have same : (text ++ more).takeWhile isAsciiWhitespace =
        text.takeWhile isAsciiWhitespace := takeWhile_append_of_lt more (by omega)
    rw [wordsFollow, Bool.and_eq_true, Bool.and_eq_true, same,
      List.drop_append_of_le_length (by omega), List.drop_append_of_le_length (by omega)]
    constructor
    · constructor
      · exact gap
      · exact List.isPrefixOf_iff_prefix.mpr (reach.trans (List.prefix_append _ _))
    · exact induction (fun word member => filled word (List.mem_cons_of_mem _ member)) rest

theorem hasWords_iff {text : Bytes} {words : Bytes × List Bytes} (filled : words.1 ≠ []) :
    hasWords text words = true ↔ ∃ place, startsWords (text.drop place) words = true := by
  induction text with
  | nil =>
    constructor
    · intro has
      cases has
    · rintro ⟨place, starts⟩
      rw [List.drop_nil, startsWords, Bool.and_eq_true] at starts
      exact absurd (List.prefix_nil.mp (List.isPrefixOf_iff_prefix.mp starts.1)) filled
  | cons byte rest induction =>
    rw [hasWords, Bool.or_eq_true, induction]
    constructor
    · rintro (starts | ⟨place, starts⟩)
      · exact ⟨0, starts⟩
      · exact ⟨place + 1, starts⟩
    · rintro ⟨place, starts⟩
      cases place with
      | zero => exact .inl starts
      | succ place => exact .inr ⟨place, starts⟩

theorem promptWords_filled :
    promptWords.1 ≠ [] ∧ ∀ word ∈ promptWords.2, word ≠ [] := by decide

theorem hasPrompt_of_suffix {text : Bytes} (before : Bytes)
    (has : hasWords text promptWords = true) : hasWords (before ++ text) promptWords = true := by
  rw [hasWords_iff promptWords_filled.1] at has ⊢
  rcases has with ⟨place, starts⟩
  refine ⟨before.length + place, ?_⟩
  rw [List.drop_length_add_append]
  exact starts

theorem hasPrompt_append {text : Bytes} (more : Bytes) (has : hasWords text promptWords = true) :
    hasWords (text ++ more) promptWords = true := by
  rw [hasWords_iff promptWords_filled.1] at has ⊢
  rcases has with ⟨place, starts⟩
  rw [startsWords, Bool.and_eq_true] at starts
  have reach := List.isPrefixOf_iff_prefix.mp starts.1
  have size := List.length_pos_iff.mpr promptWords_filled.1
  have bound := reach.length_le
  rw [List.length_drop] at bound
  refine ⟨place, ?_⟩
  rw [startsWords, Bool.and_eq_true, List.drop_append_of_le_length (by omega),
    List.drop_append_of_le_length (by rw [List.length_drop]; omega)]
  constructor
  · exact List.isPrefixOf_iff_prefix.mpr (reach.trans (List.prefix_append _ _))
  · exact wordsFollow_append more promptWords_filled.2 starts.2

/-! ## The token -/

theorem tokenPrefix_ne_nil : tokenPrefix ≠ [] := by decide

end EclipseOS.Secret.Scan
