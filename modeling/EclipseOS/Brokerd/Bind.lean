import EclipseOS.PolicyEval.Scope

/-! # Where a secret may go

The broker, not the caller, decides whether a secret may go to a destination. Every
comparison fails closed: what is not plainly a name matches nothing. -/

namespace EclipseOS.Brokerd

open Foundation PolicyEval

/-- What is left of `text` after `start`. -/
def afterPrefix (start : String) (text : List Char) : Option (List Char) :=
  start.toList.isPrefixOf? text

/-- `str::len` of some characters. -/
def byteLen (chars : List Char) : Nat := (chars.map Char.utf8Size).sum

/-- `str::to_ascii_lowercase`. -/
def lowercase (chars : List Char) : List Char := chars.map Char.toLower

/-- `str::split` at a character. -/
def splitAt (separator : Char) (chars : List Char) : List (List Char) :=
  chars.splitOnP (· = separator)

/-- `str::split_once` at a character. -/
def splitOnceAt (separator : Char) (chars : List Char) : Option (List Char × List Char) :=
  match chars.dropWhile (· ≠ separator) with
  | _ :: rest => some (chars.takeWhile (· ≠ separator), rest)
  | [] => none

inductive Binding where
  | host (host : String) (port : UInt16)
  | url (scheme host : String) (port : UInt16) (path : String)
  | app (appId : String)
  deriving DecidableEq

def defaultPort (scheme : List Char) : Option UInt16 :=
  if scheme = "https".toList then some 443
  else if scheme = "http".toList then some 80
  else none

def labelChar (char : Char) : Bool := char.isLower || char.isDigit || char = '-'

def labelOk (label : List Char) : Bool :=
  !label.isEmpty && byteLen label ≤ 63 && label.head? ≠ some '-' && label.getLast? ≠ some '-' &&
    label.all labelChar

/-- A host pattern or a target host, folded. A leading `*.` is allowed only in a
pattern. -/
def hostOk (host : List Char) (pattern : Bool) : Option (List Char) :=
  let host := lowercase host
  let body := if pattern then (afterPrefix "*." host).getD host else host
  if body = [] ∨ 253 < byteLen body ∨ body.head? = some '.' ∨ body.getLast? = some '.' then
    none
  else
    let labels := splitAt '.' body
    -- an all-numeric last label may be read as an address
    let last := labels.getLast?.getD []
    if labels.all labelOk ∧ ¬last.all Char.isDigit then some host else none

def hostMatch (pattern host : List Char) : Bool :=
  match afterPrefix "*." pattern with
  | some apex =>
    byteLen apex + 1 < byteLen host && apex.isSuffixOf host &&
      (host.take (host.length - apex.length)).getLast? = some '.'
  | none => pattern = host

/-- `str::parse::<u16>` of digits. -/
def parsePort (digits : List Char) : Option UInt16 :=
  let value := Nat.ofDigitChars 10 digits 0
  if value < 2 ^ 16 then some (UInt16.ofNat value) else none

/-- Splits `host[:port]`. -/
def splitAuthority (authority : List Char) (schemeDefault : UInt16) :
    Option (List Char × UInt16) :=
  if authority.any fun char => char = '@' ∨ char = '\\' ∨ char = '[' ∨ char = ']' then
    none
  else
    match splitOnceAt ':' authority with
    | none => some (authority, schemeDefault)
    | some (host, port) =>
      if port = [] ∨ 5 < byteLen port ∨ ¬port.all Char.isDigit then
        none
      else
        match parsePort port with
        | none => none
        | some port => if port = 0 then none else some (host, port)

/-- `*` matches any run, everything else matches itself. `mark` is what was left of the
pattern after the last star, and of the text where it was tried. -/
def glob (pattern text : Bytes) (mark : Option (Bytes × Bytes)) : Bool :=
  match text with
  | [] => pattern.all (· = 42)
  | byte :: rest =>
    if pattern.head? = some 42 then
      glob pattern.tail (byte :: rest) (some (pattern.tail, byte :: rest))
    else if pattern.head? = some byte then
      glob pattern.tail rest mark
    else
      match mark with
      | some (afterStar, _ :: marked) => glob afterStar marked (some (afterStar, marked))
      | _ => false
  termination_by
    (max text.length (mark.elim 0 fun marked => marked.2.length), text.length, pattern.length)
  decreasing_by
    · rename_i starred
      have shorter : pattern.tail.length < pattern.length := by
        cases pattern with
        | nil => cases starred
        | cons _ _ => exact Nat.lt_succ_self _
      simp only [Prod.lex_def, List.length_cons, Option.elim_some, Nat.max_self, true_and]
      omega
    · simp only [Prod.lex_def, List.length_cons]
      omega
    · simp only [Prod.lex_def, List.length_cons, Option.elim_some, Nat.max_self]
      omega

/-- The scheme, authority and path of an absolute URL. -/
def splitUrl (url : List Char) : Option (List Char × List Char × List Char) :=
  let scheme := url.takeWhile (· ≠ ':')
  -- the first `://`, since a scheme that holds a colon is refused
  match afterPrefix "://" (url.dropWhile (· ≠ ':')) with
  | none => none
  | some rest =>
    if scheme = [] ∨ ¬scheme.all Char.isAlphanum then
      none
    else
      let authority := rest.takeWhile fun char => char ≠ '/' ∧ char ≠ '?' ∧ char ≠ '#'
      let tail := rest.dropWhile fun char => char ≠ '/' ∧ char ≠ '?' ∧ char ≠ '#'
      let path := tail.takeWhile fun char => char ≠ '?' ∧ char ≠ '#'
      some (lowercase scheme, authority, if path = [] then ['/'] else path)

/-- `u8::is_ascii_graphic`, of a character. -/
def isGraphic (char : Char) : Bool := '!' ≤ char && char ≤ '~'

namespace Binding

def parse (text : String) : Option Binding :=
  match afterPrefix "host:" text.toList with
  | some authority => do
    let (name, port) ← splitAuthority authority 443
    return .host (String.ofList (← hostOk name true)) port
  | none =>
    match afterPrefix "url:" text.toList with
    | some absolute => do
      let (scheme, authority, path) ← splitUrl absolute
      let (name, port) ← splitAuthority authority (← defaultPort scheme)
      return .url (String.ofList scheme) (String.ofList (← hostOk name true)) port
        (String.ofList path)
    | none =>
      match afterPrefix "app:" text.toList with
      | some appId =>
        if appId ≠ [] ∧ byteLen appId ≤ 255 ∧ appId.all isGraphic then
          some (.app (String.ofList appId))
        else
          none
      | none => none

def toText : Binding → String
  | host name port => "host:" ++ name ++ ":" ++ toString port
  | url scheme name port path => "url:" ++ scheme ++ "://" ++ name ++ ":" ++ toString port ++ path
  | app appId => "app:" ++ appId

/-- Whether a connection to `target:port` may carry the secret. -/
def matchesEndpoint (binding : Binding) (target : String) (port : UInt16) : Bool :=
  match binding, hostOk target.toList false with
  | host pattern bound, some target => bound = port && hostMatch pattern.toList target
  | _, _ => false

/-- Whether a page or request at `target` may be filled or substituted into. -/
def matchesUrl (binding : Binding) (target : String) : Bool :=
  match splitUrl target.toList with
  | none => false
  | some (scheme, authority, path) =>
    match (defaultPort scheme).bind (splitAuthority authority) with
    | none => false
    | some (authorityHost, port) =>
      match hostOk authorityHost false with
      | none => false
      | some name =>
        match binding with
        | host pattern bound =>
          bound = port && scheme = "https".toList && hostMatch pattern.toList name
        | url boundScheme pattern bound boundPath =>
          boundScheme.toList = scheme && bound = port && hostMatch pattern.toList name &&
            glob (Cbor.utf8 boundPath) (Cbor.utf8 (String.ofList path)) none
        | app _ => false

def matchesApp (binding : Binding) (appId : String) : Bool := binding = .app appId

def isWeb : Binding → Bool
  | app _ => false
  | _ => true

end Binding

end EclipseOS.Brokerd
