import EclipseOS.Abyss.Withhold
import EclipseOS.Foundation.Fallible
import EclipseOS.Foundation.History

/-! # The store of approvals

The file that keeps, for each command the owner accepted, the hash of what was accepted. Every
approval rewrites the whole of it. -/

namespace EclipseOS.Abyss.ApprovalStore

open Foundation
open Withhold (Approvals)

/-! ## Hashes -/

abbrev WidgetHash := { bytes : List UInt8 // bytes.length = 32 }

/-- `char::from_digit` in base 16. -/
def hexDigit (n : Nat) : Char := if n < 10 then Char.ofNat (48 + n) else Char.ofNat (87 + n)

def digit (c : Char) : Option Nat :=
  if '0' ≤ c ∧ c ≤ '9' then some (c.toNat - 48)
  else if 'a' ≤ c ∧ c ≤ 'f' then some (c.toNat - 97 + 10)
  else none

def hexChars (bytes : List UInt8) : List Char :=
  bytes.flatMap fun b => [hexDigit (b.toNat / 16), hexDigit (b.toNat % 16)]

def toHex (hash : WidgetHash) : String := String.ofList (hexChars hash.1)

def bytesOf : List Char → Option (List UInt8)
  | [] => some []
  | [_] => none
  | high :: low :: rest => do
    let h ← digit high
    let l ← digit low
    let bytes ← bytesOf rest
    some (UInt8.ofNat (h * 16 + l) :: bytes)

/-- Sixty-four digits; a character that is no digit has no byte that is one. -/
def fromHex (text : String) : Option WidgetHash :=
  match bytesOf text.toList with
  | some bytes => if fits : bytes.length = 32 then some ⟨bytes, fits⟩ else none
  | none => none

/-! ## The KDL library -/

structure KdlEntry where
  name : Option String
  /-- The value, where it is a string. -/
  string : Option String
  deriving DecidableEq

structure KdlNode where
  name : String
  entries : List KdlEntry
  children : Bool
  deriving DecidableEq

/-- What is used of the library: how a string value is displayed, and what a text parses to. -/
structure Kdl where
  display : String → String
  parse : String → Option (List KdlNode)

/-! ## Approvals -/

/-- The hash for a name, in place of an earlier one. -/
def set (hash : WidgetHash) (name : String) : Approvals WidgetHash → Approvals WidgetHash
  | [] => [(name, hash)]
  | (n, h) :: rest => if n = name then (n, hash) :: rest else (n, h) :: set hash name rest

/-- What a line of the store adds; a malformed one approves nothing. -/
def readNode (out : Approvals WidgetHash) (node : KdlNode) : Approvals WidgetHash :=
  match node.name, node.entries.mapM (fun e => if e.name = none then e.string else none),
    node.children with
  | "approve", some [name, hex], false =>
    if name = "" then out
    else match fromHex hex with
      | some hash => set hash name out
      | none => out
  | _, _, _ => out

def parse (kdl : Kdl) (text : String) : Approvals WidgetHash :=
  match kdl.parse text with
  | none => []
  | some nodes => nodes.foldl readNode []

def Quoted (text : String) : Prop := text.toList.head? = some '"' ∨ text.toList.head? = some '#'

instance (text : String) : Decidable (Quoted text) := inferInstanceAs (Decidable (_ ∨ _))

def quote (kdl : Kdl) (s : String) : String :=
  let r := kdl.display s
  if Quoted r then r else "\"" ++ r ++ "\""

def HEADER : List String :=
  ["// Command widgets the owner approved (ADR 0067). Written by abyss's approval",
    "// prompt only; a line here lets exactly that definition run."]

def renderLine (kdl : Kdl) (entry : String × WidgetHash) : String :=
  "approve " ++ quote kdl entry.1 ++ " \"" ++ toHex entry.2 ++ "\""

def render (kdl : Kdl) (approvals : Approvals WidgetHash) : String :=
  String.join ((HEADER ++ approvals.map (renderLine kdl)).map (· ++ "\n"))

/-! ## The file -/

inductive OnDisk where
  | missing
  | text (text : String)
  | notText
  deriving DecidableEq

/-- Which calls of a write to the file system fail. -/
structure Faults where
  read : Bool
  createDir : Bool
  create : Bool
  write : Bool
  sync : Bool
  setPermissions : Bool
  rename : Bool
  deriving DecidableEq

def Faults.none : Faults := ⟨false, false, false, false, false, false, false⟩

/-- Missing or unreadable is nothing approved. -/
def readAt (kdl : Kdl) (fails : Bool) (disk : OnDisk) : Approvals WidgetHash :=
  if fails then []
  else match disk with
    | .text text => parse kdl text
    | .missing | .notText => []

/-- Record a hash for a name, and whether it was recorded: a temporary file with everything
takes the store's place, unless a call fails. -/
def writeAt (kdl : Kdl) (disk : OnDisk) (name : String) (hash : WidgetHash) (faults : Faults) :
    OnDisk × Bool :=
  let all := set hash name (readAt kdl faults.read disk)
  if faults.createDir then (disk, false)
  else if faults.create then (disk, false)
  else if faults.write || faults.sync || faults.setPermissions || faults.rename then (disk, false)
  else (.text (render kdl all), true)

/-- An approval to write, and what fails on the way. -/
structure Write where
  name : String
  hash : WidgetHash
  faults : Faults
  deriving DecidableEq

def step (kdl : Kdl) (disk : OnDisk) (w : Write) : OnDisk :=
  (writeAt kdl disk w.name w.hash w.faults).1

def Write.succeeds (w : Write) : Bool :=
  !(w.faults.createDir || w.faults.create || w.faults.write || w.faults.sync ||
    w.faults.setPermissions || w.faults.rename)

/-- The hash that was last written for a name. -/
def written (name : String) (writes : List Write) : Option WidgetHash :=
  writes.foldl (fun last w => if w.name = name ∧ w.succeeds = true then some w.hash else last) none

variable {kdl : Kdl} {disk : OnDisk} {w : Write} {name other : String} {hash h : WidgetHash}
  {approvals : Approvals WidgetHash}

theorem writeAt_succeeds :
    writeAt kdl disk w.name w.hash w.faults =
      if w.succeeds then (.text (render kdl (set w.hash w.name
        (readAt kdl w.faults.read disk))), true) else (disk, false) := by
  rw [writeAt, Write.succeeds]
  rcases w.faults with ⟨read, createDir, create, write, sync, setPermissions, rename⟩
  cases createDir <;> cases create <;> cases write <;> cases sync <;> cases setPermissions <;>
    cases rename <;> rfl

theorem step_eq : step kdl disk w =
    if w.succeeds then .text (render kdl (set w.hash w.name (readAt kdl w.faults.read disk)))
    else disk := by
  rw [step, writeAt_succeeds]
  split_ifs <;> rfl

/-! ## A set of names -/

attribute [local simp] ApprovalStore.set in
theorem get_set : (set hash name approvals).get name = some hash := by
  induction approvals with
  | nil => simp [set, Approvals.get]
  | cons entry rest induction =>
    rcases entry with ⟨n, h⟩
    rw [set]
    split_ifs with same
    · simp [Approvals.get, same]
    · rw [Approvals.get, List.find?_cons_of_neg (by simpa using same)]
      exact induction

theorem get_set_other (different : other ≠ name) :
    (set hash name approvals).get other = approvals.get other := by
  induction approvals with
  | nil => simp [set, Approvals.get, different.symm]
  | cons entry rest induction =>
    rcases entry with ⟨n, h⟩
    rw [set]
    split_ifs with same
    · rw [Approvals.get, Approvals.get, List.find?_cons_of_neg, List.find?_cons_of_neg]
      · simpa [← same] using different.symm
      · simpa [← same] using different.symm
    · by_cases found : n = other
      · simp [Approvals.get, found]
      · rw [Approvals.get, Approvals.get, List.find?_cons_of_neg (by simpa using found),
          List.find?_cons_of_neg (by simpa using found)]
        exact induction

theorem set_fresh (fresh : name ∉ approvals.map (·.1)) :
    set hash name approvals = approvals ++ [(name, hash)] := by
  induction approvals with
  | nil => rfl
  | cons entry rest induction =>
    rcases entry with ⟨n, h⟩
    rw [List.map_cons, List.mem_cons, not_or] at fresh
    rw [set, if_neg (Ne.symm fresh.1), induction fresh.2, List.cons_append]

theorem names_set : ∀ n, n ∈ (set hash name approvals).map (·.1) ↔
    n = name ∨ n ∈ approvals.map (·.1) := by
  intro n
  induction approvals with
  | nil => simp [set]
  | cons entry rest induction =>
    rcases entry with ⟨m, h⟩
    rw [set]
    split_ifs with same
    · simp only [List.map_cons, List.mem_cons, same]
      tauto
    · simp only [List.map_cons, List.mem_cons, induction]
      tauto

structure Tidy (approvals : Approvals WidgetHash) : Prop where
  distinct : (approvals.map (·.1)).Nodup
  named : ∀ entry ∈ approvals, entry.1 ≠ ""

theorem Tidy.nil : Tidy [] := ⟨.nil, fun _ member => by cases member⟩

theorem Tidy.set (tidy : Tidy approvals) (named : name ≠ "") :
    Tidy (set hash name approvals) := by
  constructor
  · have distinct := tidy.distinct
    clear tidy
    induction approvals with
    | nil => exact List.nodup_singleton _
    | cons entry rest induction =>
      rcases entry with ⟨n, h⟩
      rw [List.map_cons, List.nodup_cons] at distinct
      rw [ApprovalStore.set]
      split_ifs with same
      · rw [List.map_cons, List.nodup_cons]
        exact distinct
      · rw [List.map_cons, List.nodup_cons, names_set]
        refine ⟨fun either => ?_, induction distinct.2⟩
        rcases either with equal | later
        · exact same equal
        · exact distinct.1 later
  · intro entry member
    have among : entry.1 ∈ (ApprovalStore.set hash name approvals).map (·.1) :=
      List.mem_map_of_mem member
    rcases (names_set entry.1).mp among with same | old
    · rw [same]
      exact named
    · rcases List.mem_map.mp old with ⟨o, isEntry, same⟩
      rw [← same]
      exact tidy.named o isEntry

theorem Tidy.readNode (tidy : Tidy approvals) (node : KdlNode) :
    Tidy (readNode approvals node) := by
  rw [ApprovalStore.readNode]
  split
  · split_ifs with named
    · exact tidy
    · split
      · exact tidy.set named
      · exact tidy
  · exact tidy

theorem parse_tidy (text : String) : Tidy (parse kdl text) := by
  rw [parse]
  split
  · exact .nil
  · rename_i nodes found
    clear found
    suffices kept : ∀ out, Tidy out → Tidy (nodes.foldl ApprovalStore.readNode out) from
      kept [] .nil
    induction nodes with
    | nil => exact fun out tidy => tidy
    | cons node nodes induction => exact fun out tidy => induction _ (tidy.readNode node)

theorem readAt_tidy {fails : Bool} : Tidy (readAt kdl fails disk) := by
  unfold readAt
  split_ifs
  · exact .nil
  · cases disk with
    | text text => exact parse_tidy text
    | missing => exact .nil
    | notText => exact .nil

/-! ## Hexadecimal -/

theorem digit_hexDigit {n : Nat} (small : n < 16) : digit (hexDigit n) = some n := by
  have all : ∀ n : Fin 16, digit (hexDigit n) = some n.1 := by decide
  exact all ⟨n, small⟩

theorem bytesOf_hexChars (bytes : List UInt8) : bytesOf (hexChars bytes) = some bytes := by
  induction bytes with
  | nil => rfl
  | cons b bytes induction =>
    have bound := b.toNat_lt
    have joined : UInt8.ofNat (b.toNat / 16 * 16 + b.toNat % 16) = b := by
      rw [Nat.div_add_mod', UInt8.ofNat_toNat]
    have spelled : hexChars (b :: bytes) =
        hexDigit (b.toNat / 16) :: hexDigit (b.toNat % 16) :: hexChars bytes := rfl
    rw [spelled, bytesOf, digit_hexDigit (by omega), digit_hexDigit (by omega), induction]
    simp only [Option.bind_eq_bind, Option.bind_some, joined]

theorem fromHex_toHex : fromHex (toHex hash) = some hash := by
  rw [fromHex, toHex, String.toList_ofList, bytesOf_hexChars]
  exact dif_pos hash.2

/-! ## What the library does -/

/-- The characters that end a line of a document. -/
def isNewline (c : Char) : Bool :=
  c.toNat ∈ [0xA, 0xB, 0xC, 0xD, 0x85, 0x2028, 0x2029]

/-- A string that can stand between quotes as it is. -/
def Plain (s : String) : Prop := ∀ c ∈ s.toList, c ≠ '"' ∧ c ≠ '\\' ∧ isNewline c = false

/-- A text is a literal of a string: as the library displays it in quotes or raw, or a plain one
between quotes. -/
inductive Literal (kdl : Kdl) (value : String) : String → Prop where
  | displayed (quoted : Quoted (kdl.display value)) : Literal kdl value (kdl.display value)
  | plain (plain : Plain value) : Literal kdl value ("\"" ++ value ++ "\"")

/-- A line with a node of two string literals. -/
structure Row where
  first : String
  firstText : String
  second : String
  secondText : String

def Row.line (row : Row) : String := "approve " ++ row.firstText ++ " " ++ row.secondText

def Row.node (row : Row) : KdlNode :=
  ⟨"approve", [⟨none, some row.first⟩, ⟨none, some row.second⟩], false⟩

def IsComment (line : String) : Prop :=
  "//".toList <+: line.toList ∧ ∀ c ∈ line.toList, isNewline c = false

theorem oneLine_of_all {chars : List Char} (all : chars.all (!isNewline ·) = true) :
    ∀ c ∈ chars, isNewline c = false := by
  intro c member
  have kept := List.all_eq_true.mp all c member
  rwa [Bool.not_eq_true'] at kept

/-- The library displays a bare identifier as itself, and parses back the string literals it
prints. -/
structure Kdl.Lawful (kdl : Kdl) : Prop where
  bare : ∀ s, ¬Quoted (kdl.display s) → kdl.display s = s ∧ Plain s
  reads : ∀ (comments : List String) (rows : List Row), (∀ line ∈ comments, IsComment line) →
    (∀ row ∈ rows, Literal kdl row.first row.firstText ∧ Literal kdl row.second row.secondText) →
    kdl.parse (String.join ((comments ++ rows.map Row.line).map (· ++ "\n"))) =
      some (rows.map Row.node)

theorem quote_literal (lawful : kdl.Lawful) (s : String) : Literal kdl s (quote kdl s) := by
  rw [quote]
  split_ifs with quoted
  · exact .displayed quoted
  · rcases lawful.bare s quoted with ⟨same, plain⟩
    rw [same]
    exact .plain plain

theorem toHex_plain : Plain (toHex hash) := by
  intro c member
  rw [toHex, String.toList_ofList] at member
  rcases List.mem_flatMap.mp member with ⟨b, -, isDigit⟩
  have all : ∀ n : Fin 16,
      hexDigit n ≠ '"' ∧ hexDigit n ≠ '\\' ∧ isNewline (hexDigit n) = false := by
    decide
  have bound := b.toNat_lt
  simp only [List.mem_cons, List.not_mem_nil, or_false] at isDigit
  rcases isDigit with rfl | rfl
  · exact all ⟨b.toNat / 16, by omega⟩
  · exact all ⟨b.toNat % 16, by omega⟩

theorem readNode_row {row : Row} (named : row.first ≠ "") (isHash : row.second = toHex hash) :
    readNode approvals row.node = set hash row.first approvals := by
  rcases row with ⟨first, firstText, second, secondText⟩
  dsimp only at named isHash
  subst isHash
  simp only [readNode, Row.node, List.mapM_cons, List.mapM_nil, ↓reduceIte, Option.bind_eq_bind,
    Option.bind_some, Option.pure_def, if_neg named, fromHex_toHex]

theorem foldl_rows {rows : List (String × WidgetHash)} (make : String × WidgetHash → Row)
    (first : ∀ e, (make e).first = e.1) (second : ∀ e, (make e).second = toHex e.2)
    (tidy : Tidy (approvals ++ rows)) :
    (rows.map fun e => (make e).node).foldl readNode approvals = approvals ++ rows := by
  induction rows generalizing approvals with
  | nil => exact (List.append_nil _).symm
  | cons entry rows induction =>
    rcases entry with ⟨n, h⟩
    have named : n ≠ "" := tidy.named (n, h) (by simp)
    have distinct := tidy.distinct
    rw [List.map_append, List.nodup_append] at distinct
    have fresh : n ∉ approvals.map (·.1) := fun old =>
      distinct.2.2 n old n (by simp) rfl
    rw [List.map_cons, List.foldl_cons, readNode_row (by rw [first]; exact named) (second _),
      first, set_fresh fresh, induction (by simpa using tidy), List.append_assoc,
      List.singleton_append]

theorem parse_render (lawful : kdl.Lawful) (tidy : Tidy approvals) :
    parse kdl (render kdl approvals) = approvals := by
  have comments : ∀ line ∈ HEADER, IsComment line := by
    intro line member
    rw [HEADER, List.mem_cons, List.mem_singleton] at member
    rcases member with rfl | rfl
    · exact ⟨by decide, oneLine_of_all (by decide)⟩
    · exact ⟨by decide, oneLine_of_all (by decide)⟩
  let make : String × WidgetHash → Row := fun e =>
    ⟨e.1, quote kdl e.1, toHex e.2, "\"" ++ toHex e.2 ++ "\""⟩
  have lines : approvals.map (renderLine kdl) = (approvals.map make).map Row.line := by
    rw [List.map_map]
    apply List.map_congr_left
    intro e _
    show "approve " ++ quote kdl e.1 ++ " \"" ++ toHex e.2 ++ "\"" =
      "approve " ++ quote kdl e.1 ++ " " ++ ("\"" ++ toHex e.2 ++ "\"")
    have split : " \"" = " " ++ "\"" := rfl
    rw [split]
    simp only [String.append_assoc]
  have nodes := lawful.reads HEADER (approvals.map make) comments (by
    intro row member
    rcases List.mem_map.mp member with ⟨e, -, rfl⟩
    exact ⟨quote_literal lawful e.1, .plain toHex_plain⟩)
  have rows := @foldl_rows [] approvals make (fun _ => rfl) (fun _ => rfl) tidy
  rw [parse, render, lines, nodes]
  rw [List.map_map]
  exact rows

/-! ## Every sequence of approvals -/

/-- A write that succeeds has a name, and has read the store, unless nothing else is in it. -/
def Safe (kdl : Kdl) (disk : OnDisk) (w : Write) : Prop :=
  w.succeeds = true → w.name ≠ "" ∧
    (w.faults.read = true → ∀ entry ∈ readAt kdl false disk, entry.1 = w.name)

theorem get_mem (found : approvals.get name = some hash) : (name, hash) ∈ approvals := by
  rcases Option.map_eq_some_iff.mp found with ⟨entry, isFirst, rfl⟩
  have same : entry.1 = name := by simpa using List.find?_some isFirst
  rw [← same]
  exact List.mem_of_find?_eq_some isFirst

theorem written_snoc {writes : List Write} : written name (writes ++ [w]) =
    if w.name = name ∧ w.succeeds = true then some w.hash else written name writes := by
  rw [written, List.foldl_append]
  rfl

theorem recorded_of_safe (lawful : kdl.Lawful) (start : OnDisk) (writes : List Write)
    (safe : Along (step kdl) (Safe kdl) start writes) {name : String} {hash : WidgetHash}
    (last : written name writes = some hash) :
    (readAt kdl false (writes.foldl (step kdl) start)).get name = some hash := by
  induction writes using List.reverseRecOn generalizing name hash with
  | nil => cases last
  | append_singleton writes w induction =>
    rw [along_snoc] at safe
    rcases safe with ⟨before, here⟩
    rw [written_snoc] at last
    rw [List.foldl_append, List.foldl_cons, List.foldl_nil, step_eq]
    cases succeeded : w.succeeds with
    | false =>
      rw [succeeded, if_neg (fun both => Bool.false_ne_true both.2)] at last
      exact induction before last
    | true =>
      rcases here succeeded with ⟨named, alone⟩
      rw [if_pos rfl]
      have read := parse_render lawful (@Tidy.set _ w.hash _
          (@readAt_tidy kdl (writes.foldl (step kdl) start) w.faults.read) named)
      rw [readAt, if_neg Bool.false_ne_true, read]
      by_cases same : w.name = name
      · rw [if_pos ⟨same, succeeded⟩] at last
        cases last
        rw [← same]
        exact get_set
      · rw [if_neg (fun both => same both.1)] at last
        have kept := induction before last
        rw [get_set_other (Ne.symm same)]
        cases failed : w.faults.read with
        | false => exact kept
        | true => exact absurd (alone failed _ (get_mem kept)).symm same

/-- Approvals stay recorded along safe writes, and what is rendered is read back. -/
theorem approvals_kept (lawful : kdl.Lawful) :
    (∀ start writes, Along (step kdl) (Safe kdl) start writes → ∀ name hash,
      written name writes = some hash →
        (readAt kdl false (writes.foldl (step kdl) start)).get name = some hash) ∧
    ∀ approvals, Tidy approvals → parse kdl (render kdl approvals) = approvals :=
  ⟨fun start writes safe _ _ last => recorded_of_safe lawful start writes safe last,
    fun _ tidy => parse_render lawful tidy⟩

/-! ## A library that reads such lines -/

/-- How a character stands in a quoted string. -/
def escapeChar (c : Char) : List Char :=
  if c = '"' ∨ c = '\\' then ['\\', c]
  else if c = '\n' then ['\\', 'n']
  else if c = '\r' then ['\\', 'r']
  else if c = '\t' then ['\\', 't']
  else [c]

def unescape (c : Char) : Char :=
  if c = 'n' then '\n' else if c = 'r' then '\r' else if c = 't' then '\t' else c

/-- A quoted string up to its end, and what follows. -/
def readLiteral : List Char → Option (List Char × List Char)
  | [] => none
  | '"' :: rest => some ([], rest)
  | '\\' :: c :: rest => (readLiteral rest).map fun (text, rest) => (unescape c :: text, rest)
  | c :: rest => (readLiteral rest).map fun (text, rest) => (c :: text, rest)

def readRow (line : List Char) : Option KdlNode :=
  if "approve \"".toList <+: line then
    (readLiteral (line.drop 9)).bind fun (first, rest) =>
      if [' ', '"'] <+: rest then
        (readLiteral (rest.drop 2)).bind fun (second, rest) =>
          if rest = [] then
            some ⟨"approve", [⟨none, some (String.ofList first)⟩,
              ⟨none, some (String.ofList second)⟩], false⟩
          else none
      else none
  else none

def isContent (line : List Char) : Bool := !line.isEmpty && !"//".toList.isPrefixOf line

/-- A library for documents of such lines, that displays every string in quotes. -/
def lineKdl : Kdl where
  display s := "\"" ++ String.ofList (s.toList.flatMap escapeChar) ++ "\""
  parse text := ((text.toList.splitOn '\n').filter isContent).mapM readRow

theorem readLiteral_cons {c : Char} {rest : List Char} (quote : c ≠ '"') (back : c ≠ '\\') :
    readLiteral (c :: rest) = (readLiteral rest).map fun (text, rest) => (c :: text, rest) := by
  rw [readLiteral]
  · exact fun equal => quote equal
  · exact fun d tail equal => absurd equal back

theorem readLiteral_plain {text rest : List Char} (plain : ∀ c ∈ text, c ≠ '"' ∧ c ≠ '\\') :
    readLiteral (text ++ '"' :: rest) = some (text, rest) := by
  induction text with
  | nil => rfl
  | cons c text induction =>
    have here := plain c List.mem_cons_self
    rw [List.cons_append, readLiteral_cons here.1 here.2,
      induction fun c member => plain c (List.mem_cons_of_mem _ member)]
    rfl

theorem readLiteral_escaped {text rest : List Char} :
    readLiteral (text.flatMap escapeChar ++ '"' :: rest) = some (text, rest) := by
  induction text with
  | nil => rfl
  | cons c text induction =>
    have escaped : ∀ d, unescape d = c → readLiteral ('\\' :: d ::
        (text.flatMap escapeChar ++ '"' :: rest)) = some (c :: text, rest) := by
      intro d back
      rw [readLiteral, induction, Option.map_some, back]
    rw [List.flatMap_cons, List.append_assoc, escapeChar]
    split_ifs with special newline carriage tab
    · rcases special with rfl | rfl
      · exact escaped '"' rfl
      · exact escaped '\\' rfl
    · exact escaped 'n' newline.symm
    · exact escaped 'r' carriage.symm
    · exact escaped 't' tab.symm
    · rw [not_or] at special
      rw [List.singleton_append, readLiteral_cons special.1 special.2, induction]
      rfl

theorem literal_reads {value text : String} (literal : Literal lineKdl value text) :
    ∃ inner, text.toList = '"' :: inner ∧
      (∀ rest, readLiteral (inner ++ rest) = some (value.toList, rest)) ∧ '\n' ∉ inner := by
  cases literal with
  | displayed quoted =>
    refine ⟨value.toList.flatMap escapeChar ++ ['"'], ?_, fun rest => ?_, fun isBreak => ?_⟩
    · simp [lineKdl]
    · rw [List.append_assoc, List.singleton_append, readLiteral_escaped]
    · rcases List.mem_append.mp isBreak with escaped | last
      · rcases List.mem_flatMap.mp escaped with ⟨c, -, spelled⟩
        rw [escapeChar] at spelled
        split_ifs at spelled with special newline carriage tab
        · rcases special with rfl | rfl <;> revert spelled <;> decide
        · revert spelled
          decide
        · revert spelled
          decide
        · revert spelled
          decide
        · exact newline (List.mem_singleton.mp spelled).symm
      · revert last
        decide
  | plain plain =>
    refine ⟨value.toList ++ ['"'], ?_, fun rest => ?_, fun isBreak => ?_⟩
    · simp
    · rw [List.append_assoc, List.singleton_append,
        readLiteral_plain fun c member => ⟨(plain c member).1, (plain c member).2.1⟩]
    · rcases List.mem_append.mp isBreak with inside | last
      · exact absurd (plain _ inside).2.2 (by decide)
      · revert last
        decide

theorem readRow_line {row : Row} (first : Literal lineKdl row.first row.firstText)
    (second : Literal lineKdl row.second row.secondText) :
    readRow row.line.toList = some row.node ∧ '\n' ∉ row.line.toList ∧
      isContent row.line.toList = true := by
  rcases literal_reads first with ⟨one, isOne, readsOne, lineOne⟩
  rcases literal_reads second with ⟨two, isTwo, readsTwo, lineTwo⟩
  have spelled : row.line.toList = "approve \"".toList ++ (one ++ ([' ', '"'] ++ two)) := by
    simp [Row.line, String.toList_append, isOne, isTwo]
  have readsEnd := readsTwo []
  rw [List.append_nil] at readsEnd
  rw [spelled]
  refine ⟨?_, ?_, rfl⟩
  · rw [readRow, if_pos (List.prefix_append _ _)]
    have dropped : ("approve \"".toList ++ (one ++ ([' ', '"'] ++ two))).drop 9 =
        one ++ ([' ', '"'] ++ two) := rfl
    rw [dropped, readsOne, Option.bind_some]
    dsimp only
    rw [if_pos (List.prefix_append _ _)]
    have dropped' : ([' ', '"'] ++ two).drop 2 = two := rfl
    rw [dropped', readsEnd, Option.bind_some]
    dsimp only
    rw [if_pos rfl, Row.node, String.ofList_toList, String.ofList_toList]
  · intro isBreak
    rcases List.mem_append.mp isBreak with name | rest
    · revert name
      decide
    · rcases List.mem_append.mp rest with inOne | rest
      · exact lineOne inOne
      · rcases List.mem_append.mp rest with between | inTwo
        · revert between
          decide
        · exact lineTwo inTwo

theorem toList_lines (lines : List String) :
    (String.join (lines.map (· ++ "\n"))).toList =
      List.intercalate ['\n'] (lines.map String.toList ++ [[]]) := by
  induction lines with
  | nil => rfl
  | cons line lines induction =>
    rw [List.map_cons, String.join_cons, String.toList_append, induction, List.map_cons,
      List.cons_append, List.intercalate_cons_of_ne_nil (by simp)]
    simp

theorem lineKdl_lawful : lineKdl.Lawful where
  bare s notQuoted := absurd (.inl (by simp [lineKdl])) notQuoted
  reads comments rows isComment literals := by
    have each : ∀ row ∈ rows, readRow row.line.toList = some row.node ∧
        '\n' ∉ row.line.toList ∧ isContent row.line.toList = true := fun row member =>
      readRow_line (literals row member).1 (literals row member).2
    have noBreak : ∀ line ∈ (comments ++ rows.map Row.line).map String.toList ++ [[]],
        '\n' ∉ line := by
      intro line member isBreak
      rcases List.mem_append.mp member with inLines | last
      · rcases List.mem_map.mp inLines with ⟨text, isLine, rfl⟩
        rcases List.mem_append.mp isLine with comment | inRows
        · exact absurd ((isComment text comment).2 _ isBreak) (by decide)
        · rcases List.mem_map.mp inRows with ⟨row, isRow, rfl⟩
          exact (each row isRow).2.1 isBreak
      · rw [List.mem_singleton.mp last] at isBreak
        cases isBreak
    have noComment : (comments.map String.toList).filter isContent = [] := by
      rw [List.filter_eq_nil_iff]
      intro line member
      rcases List.mem_map.mp member with ⟨text, comment, rfl⟩
      have starts := List.isPrefixOf_iff_prefix.mpr (isComment text comment).1
      rw [isContent, starts, Bool.not_true, Bool.and_false]
      exact Bool.false_ne_true
    have allRows : ((rows.map Row.line).map String.toList).filter isContent =
        (rows.map Row.line).map String.toList := by
      rw [List.filter_eq_self]
      intro line member
      rcases List.mem_map.mp member with ⟨text, isLine, rfl⟩
      rcases List.mem_map.mp isLine with ⟨row, isRow, rfl⟩
      exact (each row isRow).2.2
    have content : (([[]] : List (List Char)).filter isContent) = [] := rfl
    show ((_ : List Char).splitOn '\n' |>.filter isContent).mapM readRow = _
    rw [toList_lines, List.splitOn_intercalate _ noBreak (by simp), List.filter_append,
      List.map_append, List.filter_append, noComment, allRows, content, List.nil_append,
      List.append_nil, List.map_map, List.mapM_map]
    exact Foundation.mapM_eq_map fun row member => (each row member).1

def ones : WidgetHash := ⟨List.replicate 32 1, rfl⟩

def twos : WidgetHash := ⟨List.replicate 32 2, rfl⟩

theorem approvals_kept_twoWrites :
    (readAt lineKdl false ([⟨"cpu load", ones, .none⟩, ⟨"disk use", twos, .none⟩].foldl
      (step lineKdl) .missing)).get "cpu load" = some ones :=
  (approvals_kept lineKdl_lawful).1 .missing
    [⟨"cpu load", ones, .none⟩, ⟨"disk use", twos, .none⟩]
    ⟨fun _ => ⟨by decide, fun failed => by cases failed⟩,
      fun _ => ⟨by decide, fun failed => by cases failed⟩, trivial⟩ "cpu load" ones rfl

/-- The store cannot be read for a moment, and the next approval is written over all others. -/
theorem failedRead_forgets : ¬∀ start writes, (∀ w ∈ writes, w.name ≠ "") → ∀ name hash,
    written name writes = some hash →
      (readAt lineKdl false (writes.foldl (step lineKdl) start)).get name = some hash := by
  intro all
  let unread : Faults := { Faults.none with read := true }
  have kept := all .missing [⟨"cpu load", ones, .none⟩, ⟨"disk use", twos, unread⟩]
    (by simp) "cpu load" ones rfl
  have second : ∀ disk, step lineKdl disk ⟨"disk use", twos, unread⟩ =
      .text (render lineKdl (set twos "disk use" [])) := fun _ => rfl
  have read := parse_render lineKdl_lawful (@Tidy.set _ twos _ .nil
      (show "disk use" ≠ "" by decide))
  rw [List.foldl_cons, List.foldl_cons, List.foldl_nil, second, readAt,
    if_neg Bool.false_ne_true, read] at kept
  exact absurd kept (by decide)

end EclipseOS.Abyss.ApprovalStore
