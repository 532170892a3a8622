import EclipseOS.Secret.Scan
import Mathlib.Data.List.TakeDrop

/-! # What the login scanner reports of a stream cut into chunks

The escapes are read byte by byte, but the text is looked at once for each chunk and
once at the end. A look is the scanner as it stands then; what is reported is a
function of the looks, and they differ from one cutting to another in two ways only:
an earlier look has read less, and what earlier looks dropped from a long text is
missing from the later ones. -/

namespace EclipseOS.Secret.Scan

open Foundation

/-- The scanner at the time its text is looked at. -/
structure Look where
  seen : Scanner
  eof : Bool

namespace Look

def url (look : Look) : Option Bytes := look.seen.findUrl
def words (look : Look) : Bool := hasWords look.seen.text promptWords
def token (look : Look) : Option Bytes := findToken look.seen.text look.eof

/-- A URL in the text while no hyperlink has opened. -/
def printed (look : Look) : Option Bytes :=
  match look.seen.link with
  | some _ => none
  | none => Scanner.printedUrl look.seen.text

/-- The target of a hyperlink that has opened and closed. -/
def linked (look : Look) : Option Bytes :=
  if look.seen.linkClosed then look.seen.link else none

theorem url_eq (look : Look) : look.url = look.printed.or look.linked := by
  unfold url printed linked Scanner.findUrl
  cases look.seen.link with
  | none => cases look.seen.linkClosed <;> simp
  | some uri => rfl

end Look

namespace Scanner

/-- The looks at a stream that goes on with these chunks and then ends. -/
def looks (scanner : Scanner) : List Bytes → List Look
  | [] => [⟨scanner, true⟩]
  | chunk :: chunks => ⟨scanner.read chunk, false⟩ :: (scanner.feed chunk).1.looks chunks

end Scanner

/-! ## Reports as a function of the looks -/

/-- The URL and the prompt a look reports, from what has been reported before. -/
def Look.opens (urlDone promptDone : Bool) (look : Look) : List Event :=
  ((if urlDone then none else look.url).map Event.url).toList ++
    if (urlDone || look.url.isSome) && !promptDone && look.words then [.promptReady] else []

def reports : (urlDone promptDone tokenDone : Bool) → List Look → List Event
  | _, _, _, [] => []
  | urlDone, promptDone, tokenDone, look :: rest =>
    look.opens urlDone promptDone ++
        ((if tokenDone then none else look.token).map Event.token).toList ++
      reports (urlDone || look.url.isSome)
        (promptDone || (urlDone || look.url.isSome) && look.words)
        (tokenDone || look.token.isSome) rest

namespace Scanner

theorem scan_reports (scanner : Scanner) (eof : Bool) :
    (scanner.scan eof).2 =
        Look.opens scanner.urlDone scanner.promptDone ⟨scanner, eof⟩ ++
          ((if scanner.tokenDone then none else Look.token ⟨scanner, eof⟩).map
            Event.token).toList ∧
      (scanner.scan eof).1.urlDone = (scanner.urlDone || (Look.url ⟨scanner, eof⟩).isSome) ∧
      (scanner.scan eof).1.promptDone =
        (scanner.promptDone || (scanner.urlDone || (Look.url ⟨scanner, eof⟩).isSome) &&
          Look.words ⟨scanner, eof⟩) ∧
      (scanner.scan eof).1.tokenDone =
        (scanner.tokenDone || (Look.token ⟨scanner, eof⟩).isSome) := by
  unfold scan Look.opens Look.url Look.words Look.token
  cases scanner.urlDone <;> cases scanner.promptDone <;> cases scanner.tokenDone <;> simp

end Scanner

/-- The URL the first look that finds one reports. -/
def urlSeen (looks : List Look) : Option Bytes := looks.findSome? Look.url

theorem urlSeen_cons (look : Look) (rest : List Look) :
    urlSeen (look :: rest) = look.url.or (urlSeen rest) := by
  rw [urlSeen, List.findSome?_cons]
  cases look.url <;> rfl

/-- The prompt stands at a look that finds the URL or at a later one. -/
def promptSeen : (urlDone : Bool) → List Look → Bool
  | _, [] => false
  | urlDone, look :: rest =>
    (urlDone || look.url.isSome) && look.words || promptSeen (urlDone || look.url.isSome) rest

def tokenSeen (looks : List Look) : Option Bytes := looks.findSome? Look.token

theorem tokenSeen_cons (look : Look) (rest : List Look) :
    tokenSeen (look :: rest) = look.token.or (tokenSeen rest) := by
  rw [tokenSeen, List.findSome?_cons]
  cases look.token <;> rfl

/-- The URL and the prompt a sequence of looks reports. -/
def opening (looks : List Look) : List Event :=
  ((urlSeen looks).map Event.url).toList ++
    if promptSeen false looks then [.promptReady] else []

theorem reports_opening (urlDone promptDone : Bool) (looks : List Look) :
    reports urlDone promptDone true looks =
      ((if urlDone then none else urlSeen looks).map Event.url).toList ++
        if !promptDone && promptSeen urlDone looks then [.promptReady] else [] := by
  induction looks generalizing urlDone promptDone with
  | nil =>
    cases urlDone <;> simp [reports, urlSeen, promptSeen]
  | cons look rest induction =>
    rw [reports, Bool.true_or, induction, promptSeen, urlSeen_cons, Look.opens]
    cases urlDone with
    | true => cases promptDone <;> cases look.words <;> simp
    | false =>
      cases look.url with
      | none => cases promptDone <;> simp
      | some uri => cases promptDone <;> cases look.words <;> simp

/-- The looks up to the first that finds a token. -/
def untilToken : List Look → List Look
  | [] => []
  | look :: rest => if look.token.isSome then [look] else look :: untilToken rest

theorem untilToken_of_none {looks : List Look} (absent : tokenSeen looks = none) :
    untilToken looks = looks := by
  induction looks with
  | nil => rfl
  | cons look rest induction =>
    rw [tokenSeen, List.findSome?_eq_none_iff] at absent
    rw [untilToken, absent look List.mem_cons_self, Option.isSome_none, if_neg Bool.false_ne_true]
    rw [induction]
    rw [tokenSeen, List.findSome?_eq_none_iff]
    exact fun later member => absent later (List.mem_cons_of_mem _ member)

/-- The token stands between what is reported up to its look and what is reported later. -/
theorem reports_split (urlDone promptDone : Bool) (looks : List Look) :
    ∃ rest,
      reports urlDone promptDone false looks =
        reports urlDone promptDone true (untilToken looks) ++
          ((tokenSeen looks).map Event.token).toList ++ rest ∧
      reports urlDone promptDone true looks =
        reports urlDone promptDone true (untilToken looks) ++ rest := by
  induction looks generalizing urlDone promptDone with
  | nil => exact ⟨[], rfl, rfl⟩
  | cons look looks induction =>
    rw [reports, reports, tokenSeen_cons, untilToken, Bool.true_or, Bool.false_or]
    cases look.token with
    | some value =>
      refine ⟨reports (urlDone || look.url.isSome)
        (promptDone || (urlDone || look.url.isSome) && look.words) true looks, ?_, ?_⟩
      · simp [reports]
      · simp [reports]
    | none =>
      rcases induction (urlDone || look.url.isSome)
        (promptDone || (urlDone || look.url.isSome) && look.words) with ⟨rest, found, passed⟩
      refine ⟨rest, ?_, ?_⟩
      · rw [Option.isSome_none, found]
        simp [reports]
      · rw [passed]
        simp [reports]

theorem opening_eq (looks : List Look) : opening looks = reports false false true looks := by
  rw [reports_opening]
  rfl

theorem token_not_mem_opening (looks : List Look) (value : Bytes) :
    Event.token value ∉ opening looks := by
  unfold opening
  cases urlSeen looks <;> cases promptSeen false looks <;> simp

theorem opening_inj {looks others : List Look} :
    opening looks = opening others ↔
      urlSeen looks = urlSeen others ∧ promptSeen false looks = promptSeen false others := by
  unfold opening
  constructor
  · cases urlSeen looks <;> cases urlSeen others <;> cases promptSeen false looks <;>
      cases promptSeen false others <;> simp
  · rintro ⟨url, prompt⟩
    rw [url, prompt]

/-! ## What a scanner keeps of what it has read -/

/-- `kept` stands where `whole` stands in the escapes, and has dropped this much of the
text. -/
structure Tracks (dropped : Bytes) (kept whole : Scanner) : Prop where
  esc : kept.esc = whole.esc
  param : kept.param = whole.param
  text : whole.text = dropped ++ kept.text
  link : kept.link = whole.link
  linkClosed : kept.linkClosed = whole.linkClosed

/-- Reading takes nothing back and reports nothing. -/
structure Reads (before after : Scanner) : Prop where
  flags : (after.urlDone, after.promptDone, after.tokenDone) =
    (before.urlDone, before.promptDone, before.tokenDone)
  text : before.text <+: after.text
  link : ∀ uri, before.link = some uri → after.link = some uri
  linkClosed : before.linkClosed = true → after.linkClosed = true

namespace Tracks

variable {dropped : Bytes} {kept whole : Scanner}

theorem refl (scanner : Scanner) : Tracks [] scanner scanner where
  esc := rfl
  param := rfl
  text := rfl
  link := rfl
  linkClosed := rfl

theorem withEsc (tracks : Tracks dropped kept whole) (esc : St) :
    Tracks dropped { kept with esc := esc } { whole with esc := esc } where
  esc := rfl
  param := tracks.param
  text := tracks.text
  link := tracks.link
  linkClosed := tracks.linkClosed

theorem push (tracks : Tracks dropped kept whole) (byte : UInt8) :
    Tracks dropped (kept.push byte) (whole.push byte) where
  esc := tracks.esc
  param := tracks.param
  text := by
    dsimp only [Scanner.push]
    rw [tracks.text, List.append_assoc]
  link := tracks.link
  linkClosed := tracks.linkClosed

theorem pushParam (tracks : Tracks dropped kept whole) (byte : UInt8) :
    Tracks dropped (kept.pushParam byte) (whole.pushParam byte) := by
  unfold Scanner.pushParam
  rw [tracks.param]
  split
  · exact { tracks with param := rfl }
  · exact tracks

theorem stepEscape (tracks : Tracks dropped kept whole) (byte : UInt8) :
    Tracks dropped (kept.stepEscape byte) (whole.stepEscape byte) where
  esc := rfl
  param := rfl
  text := tracks.text
  link := tracks.link
  linkClosed := tracks.linkClosed

theorem endOsc (tracks : Tracks dropped kept whole) : Tracks dropped kept.endOsc whole.endOsc := by
  have ended : Tracks dropped { kept with esc := .ground, param := [] }
      { whole with esc := .ground, param := [] } := { tracks with esc := rfl, param := rfl }
  unfold Scanner.endOsc
  rw [tracks.link] at ended
  rw [tracks.param, tracks.link]
  dsimp only
  split
  · exact ended
  · split
    · exact ended
    · split
      · split
        · exact { ended with linkClosed := rfl }
        · exact ended
      · split
        · exact { ended with link := rfl }
        · exact ended

theorem step (tracks : Tracks dropped kept whole) (byte : UInt8) :
    Tracks dropped (kept.step byte) (whole.step byte) := by
  unfold Scanner.step
  rw [tracks.esc]
  cases whole.esc with
  | ground =>
    dsimp only
    split_ifs
    · exact tracks.withEsc _
    · exact tracks.push _
    · exact tracks.push _
    · exact tracks
    · exact tracks.push _
  | escape => exact tracks.stepEscape byte
  | skip => exact tracks.withEsc _
  | csi =>
    dsimp only
    split_ifs
    · exact tracks.withEsc _
    · exact (tracks.push _).withEsc _
    · exact tracks.withEsc _
    · exact tracks.pushParam _
    · exact tracks
  | osc =>
    dsimp only
    split_ifs
    · exact tracks.endOsc
    · exact tracks.withEsc _
    · exact tracks.pushParam _
  | oscEscape =>
    dsimp only
    split_ifs
    · exact tracks.endOsc
    · exact tracks.endOsc.stepEscape byte
  | str =>
    dsimp only
    split_ifs
    · exact tracks.withEsc _
    · exact tracks.withEsc _
    · exact tracks
  | strEscape =>
    dsimp only
    split_ifs
    · exact tracks.withEsc _
    · exact tracks.stepEscape byte

theorem read (tracks : Tracks dropped kept whole) (chunk : Bytes) :
    Tracks dropped (kept.read chunk) (whole.read chunk) := by
  induction chunk generalizing kept whole with
  | nil => exact tracks
  | cons byte rest induction => exact induction (tracks.step byte)

theorem scan (tracks : Tracks dropped kept whole) (eof : Bool) :
    ∃ more, Tracks more (kept.scan eof).1 whole := by
  by_cases long : maxText < kept.text.length
  · refine ⟨dropped ++ kept.text.take (kept.text.length - keepText), { tracks with text := ?_ }⟩
    dsimp only [Scanner.scan, Scanner.drained]
    rw [if_pos long, tracks.text, List.append_assoc, List.take_append_drop]
  · refine ⟨dropped, { tracks with text := ?_ }⟩
    dsimp only [Scanner.scan, Scanner.drained]
    rw [if_neg long]
    exact tracks.text

end Tracks

namespace Reads

theorem refl (scanner : Scanner) : Reads scanner scanner where
  flags := rfl
  text := List.prefix_refl _
  link _ opened := opened
  linkClosed closed := closed

theorem trans {first second third : Scanner} (former : Reads first second)
    (latter : Reads second third) : Reads first third where
  flags := latter.flags.trans former.flags
  text := former.text.trans latter.text
  link uri opened := latter.link uri (former.link uri opened)
  linkClosed closed := latter.linkClosed (former.linkClosed closed)

theorem aside {before after : Scanner}
    (flags : (after.urlDone, after.promptDone, after.tokenDone) =
      (before.urlDone, before.promptDone, before.tokenDone))
    (text : after.text = before.text) (link : after.link = before.link)
    (linkClosed : after.linkClosed = before.linkClosed) : Reads before after where
  flags := flags
  text := by rw [text]
  link uri opened := by rw [link, opened]
  linkClosed closed := by rw [linkClosed, closed]

theorem push (scanner : Scanner) (byte : UInt8) : Reads scanner (scanner.push byte) where
  flags := rfl
  text := List.prefix_append _ _
  link _ opened := opened
  linkClosed closed := closed

theorem pushParam (scanner : Scanner) (byte : UInt8) :
    Reads scanner (scanner.pushParam byte) := by
  unfold Scanner.pushParam
  split
  · exact aside rfl rfl rfl rfl
  · exact refl scanner

theorem endOsc (scanner : Scanner) : Reads scanner scanner.endOsc := by
  unfold Scanner.endOsc
  dsimp only
  split
  · exact aside rfl rfl rfl rfl
  · split
    · exact aside rfl rfl rfl rfl
    · split
      · split
        · exact { aside rfl rfl rfl rfl with linkClosed := fun _ => rfl }
        · exact aside rfl rfl rfl rfl
      · split
        · rename_i opens
          rw [Bool.and_eq_true, Bool.and_eq_true, Option.isNone_iff_eq_none] at opens
          exact {
            flags := rfl
            text := List.prefix_refl _
            link := fun uri opened => by rw [opens.1.1] at opened; cases opened
            linkClosed := fun closed => closed }
        · exact aside rfl rfl rfl rfl

theorem step (scanner : Scanner) (byte : UInt8) : Reads scanner (scanner.step byte) := by
  unfold Scanner.step
  cases scanner.esc with
  | ground =>
    dsimp only
    split_ifs
    · exact aside rfl rfl rfl rfl
    · exact push scanner _
    · exact push scanner _
    · exact refl scanner
    · exact push scanner _
  | escape => exact aside rfl rfl rfl rfl
  | skip => exact aside rfl rfl rfl rfl
  | csi =>
    dsimp only
    split_ifs
    · exact aside rfl rfl rfl rfl
    · exact (push scanner _).trans (aside rfl rfl rfl rfl)
    · exact aside rfl rfl rfl rfl
    · exact pushParam scanner _
    · exact refl scanner
  | osc =>
    dsimp only
    split_ifs
    · exact endOsc scanner
    · exact aside rfl rfl rfl rfl
    · exact pushParam scanner _
  | oscEscape =>
    dsimp only
    split_ifs
    · exact endOsc scanner
    · exact (endOsc scanner).trans (aside rfl rfl rfl rfl)
  | str =>
    dsimp only
    split_ifs
    · exact aside rfl rfl rfl rfl
    · exact aside rfl rfl rfl rfl
    · exact refl scanner
  | strEscape =>
    dsimp only
    split_ifs
    · exact aside rfl rfl rfl rfl
    · exact aside rfl rfl rfl rfl

theorem read (scanner : Scanner) (chunk : Bytes) : Reads scanner (scanner.read chunk) := by
  induction chunk generalizing scanner with
  | nil => exact refl scanner
  | cons byte rest induction => exact (step scanner byte).trans (induction _)

end Reads

theorem run_eq_reports (scanner : Scanner) (chunks : List Bytes) :
    scanner.run chunks =
      reports scanner.urlDone scanner.promptDone scanner.tokenDone (scanner.looks chunks) := by
  induction chunks generalizing scanner with
  | nil =>
    rw [Scanner.run, Scanner.looks, reports, reports, List.append_nil, Scanner.finish]
    exact (scanner.scan_reports true).1
  | cons chunk chunks induction =>
    have flags := (Reads.read scanner chunk).flags
    rw [Prod.mk.injEq, Prod.mk.injEq] at flags
    rcases (scanner.read chunk).scan_reports false with ⟨out, url, prompt, token⟩
    rw [flags.1] at out url prompt
    rw [flags.2.1] at out prompt
    rw [flags.2.2] at out token
    rw [Scanner.run, Scanner.looks, reports, induction, Scanner.feed, out, url, prompt, token]

/-! ## The looks of one stream cut in different ways -/

variable {dropped : Bytes} {kept whole : Scanner}

theorem read_cons (scanner : Scanner) (chunk : Bytes) (chunks : List Bytes) :
    scanner.read (chunk :: chunks).flatten = (scanner.read chunk).read chunks.flatten := by
  rw [List.flatten_cons, Scanner.read, List.foldl_append]
  rfl

theorem looks_track (tracks : Tracks dropped kept whole) (chunks : List Bytes) :
    ∀ look ∈ kept.looks chunks, ∃ dropped reached, Tracks dropped look.seen reached ∧
      Reads whole reached ∧ Reads reached (whole.read chunks.flatten) := by
  induction chunks generalizing dropped kept whole with
  | nil =>
    intro look member
    rw [Scanner.looks, List.mem_singleton] at member
    rw [member]
    exact ⟨dropped, whole, tracks, Reads.refl _, Reads.read _ _⟩
  | cons chunk chunks induction =>
    have read := tracks.read chunk
    intro look member
    rw [Scanner.looks, List.mem_cons] at member
    rw [read_cons]
    rcases member with rfl | later
    · exact ⟨dropped, _, read, Reads.read _ _, Reads.read _ _⟩
    · rcases read.scan false with ⟨more, scanned⟩
      rcases induction scanned look later with ⟨_, reached, track, former, latter⟩
      exact ⟨_, reached, track, (Reads.read whole chunk).trans former, latter⟩

/-- The URL of the first look that finds a printed one before any hyperlink has opened. -/
def printedSeen (looks : List Look) : Option Bytes := looks.findSome? Look.printed

theorem printedSeen_cons (look : Look) (rest : List Look) :
    printedSeen (look :: rest) = look.printed.or (printedSeen rest) := by
  rw [printedSeen, List.findSome?_cons]
  cases look.printed <;> rfl

theorem printedSeen_of_link (tracks : Tracks dropped kept whole) {uri : Bytes}
    (opened : whole.link = some uri) (chunks : List Bytes) :
    printedSeen (kept.looks chunks) = none := by
  rw [printedSeen, List.findSome?_eq_none_iff]
  intro look member
  rcases looks_track tracks chunks look member with ⟨_, reached, track, former, _⟩
  rw [Look.printed, track.link, former.link uri opened]

theorem linked_of_reads {before after : Scanner} {uri : Bytes} {eof : Bool}
    (reads : Reads before after) (linked : Look.linked ⟨before, eof⟩ = some uri) :
    Look.linked ⟨after, true⟩ = some uri := by
  unfold Look.linked at linked ⊢
  dsimp only at linked ⊢
  split at linked
  · rename_i closed
    rw [if_pos (reads.linkClosed closed)]
    exact reads.link uri linked
  · cases linked

theorem linked_of_tracks (tracks : Tracks dropped kept whole) (eof : Bool) :
    Look.linked ⟨kept, eof⟩ = Look.linked ⟨whole, true⟩ := by
  dsimp only [Look.linked]
  rw [tracks.linkClosed, tracks.link]

theorem link_of_linked {look : Look} {uri : Bytes} (linked : look.linked = some uri) :
    look.seen.link = some uri := by
  rw [Look.linked] at linked
  split at linked
  · exact linked
  · cases linked

theorem urlSeen_looks (tracks : Tracks dropped kept whole) (chunks : List Bytes) :
    urlSeen (kept.looks chunks) = (printedSeen (kept.looks chunks)).or
      (Look.linked ⟨whole.read chunks.flatten, true⟩) := by
  induction chunks generalizing dropped kept whole with
  | nil =>
    rw [Scanner.looks, urlSeen_cons, printedSeen_cons, Look.url_eq, linked_of_tracks tracks]
    simp [urlSeen, printedSeen, Scanner.read]
  | cons chunk chunks induction =>
    have read := tracks.read chunk
    rcases read.scan false with ⟨more, scanned⟩
    rw [Scanner.looks, urlSeen_cons, printedSeen_cons, Look.url_eq, linked_of_tracks read,
      Scanner.feed, induction scanned, read_cons, Option.or_assoc, Option.or_assoc]
    congr 1
    cases closed : Look.linked ⟨whole.read chunk, true⟩ with
    | none => rw [Option.none_or]
    | some uri =>
      rw [printedSeen_of_link scanned (link_of_linked closed),
        linked_of_reads (Reads.read _ _) closed]
      rfl

theorem words_of_look (tracks : Tracks dropped kept whole) {chunks : List Bytes} {look : Look}
    (member : look ∈ kept.looks chunks) (words : look.words = true) :
    hasWords (whole.read chunks.flatten).text promptWords = true := by
  rcases looks_track tracks chunks look member with ⟨_, reached, track, _, latter⟩
  rcases latter.text with ⟨more, text⟩
  rw [← text]
  apply hasPrompt_append more
  rw [track.text]
  exact hasPrompt_of_suffix _ words

theorem of_promptSeen {urlDone : Bool} {looks : List Look}
    (seen : promptSeen urlDone looks = true) :
    (∃ look ∈ looks, look.words = true) ∧ (urlDone = true ∨ (urlSeen looks).isSome = true) := by
  induction looks generalizing urlDone with
  | nil => cases seen
  | cons look rest induction =>
    rw [promptSeen, Bool.or_eq_true, Bool.and_eq_true, Bool.or_eq_true] at seen
    rw [urlSeen_cons, Option.isSome_or, Bool.or_eq_true]
    rcases seen with ⟨url, words⟩ | later
    · constructor
      · exact ⟨look, List.mem_cons_self, words⟩
      · rcases url with done | found
        · exact .inl done
        · exact .inr (.inl found)
    · rcases induction later with ⟨⟨place, member, words⟩, url⟩
      constructor
      · exact ⟨place, List.mem_cons_of_mem _ member, words⟩
      · rw [Bool.or_eq_true] at url
        rcases url with (done | found) | found
        · exact .inl done
        · exact .inr (.inl found)
        · exact .inr (.inr found)

/-! ## The whole stream at once -/

section Whole

variable (stream : Bytes)

theorem findUrl_scan_of_none {scanner : Scanner} (absent : scanner.findUrl = none) :
    (scanner.scan false).1.findUrl = none := by
  unfold Scanner.findUrl at absent ⊢
  dsimp only [Scanner.scan]
  split at absent
  · exact absent
  · dsimp only [Scanner.drained]
    split
    · exact printedUrl_drop _ absent
    · exact absent

theorem words_of_scan {scanner : Scanner}
    (words : hasWords (scanner.scan false).1.text promptWords = true) :
    hasWords scanner.text promptWords = true := by
  dsimp only [Scanner.scan, Scanner.drained] at words
  split at words
  · rw [← List.take_append_drop (scanner.text.length - keepText) scanner.text]
    exact hasPrompt_of_suffix _ words
  · exact words

theorem urlSeen_whole :
    urlSeen (Scanner.new.looks [stream]) = (Scanner.new.read stream).findUrl := by
  rw [Scanner.looks, Scanner.looks, urlSeen_cons, urlSeen_cons]
  dsimp only [Look.url, Scanner.feed]
  cases found : (Scanner.new.read stream).findUrl with
  | some uri => rfl
  | none => rw [findUrl_scan_of_none found]; rfl

theorem promptSeen_whole :
    promptSeen false (Scanner.new.looks [stream]) =
      ((Scanner.new.read stream).findUrl.isSome &&
        hasWords (Scanner.new.read stream).text promptWords) := by
  rw [Scanner.looks, Scanner.looks, promptSeen, promptSeen, promptSeen, Bool.or_false]
  dsimp only [Look.url, Look.words, Scanner.feed]
  rw [Bool.false_or]
  have fewer := @words_of_scan (Scanner.new.read stream)
  cases found : (Scanner.new.read stream).findUrl with
  | none => rw [findUrl_scan_of_none found]; rfl
  | some uri =>
    cases words : hasWords (Scanner.new.read stream).text promptWords with
    | true => rfl
    | false =>
      rw [words] at fewer
      have fewer := Bool.eq_false_iff.mpr fun later => Bool.false_ne_true (fewer later)
      rw [fewer]
      rfl

theorem untilToken_whole :
    opening (untilToken (Scanner.new.looks [stream])) = opening (Scanner.new.looks [stream]) := by
  rw [opening_inj, urlSeen_whole, promptSeen_whole]
  rw [Scanner.looks, Scanner.looks, untilToken]
  split
  · rw [urlSeen_cons, promptSeen, promptSeen]
    dsimp only [Look.url, Look.words]
    simp [urlSeen]
  · have same := And.intro (urlSeen_whole stream) (promptSeen_whole stream)
    rw [Scanner.looks, Scanner.looks] at same
    rw [untilToken, untilToken]
    split <;> exact same

end Whole

theorem reports_eq_iff {looks : List Look} {openings : List Event} {token : Option Bytes}
    (noToken : ∀ value, Event.token value ∉ openings) :
    reports false false false looks = openings ++ (token.map Event.token).toList ↔
      opening looks = openings ∧ tokenSeen looks = token ∧
        opening (untilToken looks) = opening looks := by
  rcases reports_split false false looks with ⟨rest, split, all⟩
  rw [← opening_eq, ← opening_eq] at all
  rw [← opening_eq] at split
  rw [split]
  cases seen : tokenSeen looks with
  | none =>
    have same : rest = [] := by
      rw [untilToken_of_none seen] at all
      exact List.self_eq_append_right.mp all
    rw [untilToken_of_none seen, same]
    cases token with
    | none => simp
    | some value =>
      constructor
      · intro equal
        have member : Event.token value ∈ opening looks := by
          have := congrArg (Event.token value ∈ ·) equal
          simpa using this
        exact absurd member (token_not_mem_opening looks value)
      · rintro ⟨_, mismatch, _⟩
        cases mismatch
  | some value =>
    cases token with
    | none =>
      constructor
      · intro equal
        have member : Event.token value ∈ openings := by
          have := congrArg (Event.token value ∈ ·) equal
          simpa using this
        exact absurd member (noToken value)
      · rintro ⟨_, mismatch, _⟩
        cases mismatch
    | some other =>
      have later : Event.token other ∉ rest := by
        intro member
        apply token_not_mem_opening looks other
        rw [all]
        exact List.mem_append_right _ member
      rw [List.append_assoc]
      change opening (untilToken looks) ++ .token value :: rest =
        openings ++ .token other :: [] ↔ _
      rw [List.append_cons_inj_of_notMem (token_not_mem_opening _ other) later, all]
      constructor
      · rintro ⟨former, same, nothing⟩
        rw [nothing, List.append_nil]
        exact ⟨former, congrArg some (Event.token.inj same), rfl⟩
      · rintro ⟨openings, same, first⟩
        have nothing : rest = [] := List.self_eq_append_right.mp first
        rw [nothing, List.append_nil] at openings
        exact ⟨openings, congrArg Event.token (Option.some.inj same), nothing⟩

/-! ## When the cutting does not show -/

/-- The stream read to its end with nothing dropped. -/
def wholeRead (chunks : List Bytes) : Scanner := Scanner.new.read chunks.flatten

/-- No look comes too early for what the whole stream shows, and none too late. -/
structure Unhurried (chunks : List Bytes) : Prop where
  /-- A URL printed before a hyperlink has opened is the one the whole stream shows. -/
  printed : ∀ uri, printedSeen (Scanner.new.looks chunks) = some uri →
    (wholeRead chunks).findUrl = some uri
  /-- A URL that is only printed is not dropped before a look finds it. -/
  url : printedSeen (Scanner.new.looks chunks) = none → (wholeRead chunks).link = none →
    Scanner.printedUrl (wholeRead chunks).text = none
  /-- The words of the prompt are not dropped before the look that finds the URL. -/
  words : (wholeRead chunks).findUrl.isSome = true →
    hasWords (wholeRead chunks).text promptWords = true →
    promptSeen false (Scanner.new.looks chunks) = true
  /-- What is dropped does not change the first token. -/
  token : tokenSeen (Scanner.new.looks chunks) = tokenSeen (Scanner.new.looks [chunks.flatten])
  /-- No look finds the token before a look has found the URL and the prompt. -/
  order : opening (untilToken (Scanner.new.looks chunks)) = opening (Scanner.new.looks chunks)

theorem urlSeen_eq_iff (chunks : List Bytes) :
    urlSeen (Scanner.new.looks chunks) = (wholeRead chunks).findUrl ↔
      (∀ uri, printedSeen (Scanner.new.looks chunks) = some uri →
        (wholeRead chunks).findUrl = some uri) ∧
      (printedSeen (Scanner.new.looks chunks) = none → (wholeRead chunks).link = none →
        Scanner.printedUrl (wholeRead chunks).text = none) := by
  have whole : (wholeRead chunks).findUrl =
      (Look.printed ⟨wholeRead chunks, true⟩).or (Look.linked ⟨wholeRead chunks, true⟩) :=
    Look.url_eq ⟨wholeRead chunks, true⟩
  rw [urlSeen_looks (Tracks.refl _) chunks, ← wholeRead]
  cases first : printedSeen (Scanner.new.looks chunks) with
  | some uri =>
    constructor
    · intro same
      refine ⟨fun other equal => ?_, fun missing => by cases missing⟩
      rw [← same, ← equal]
      rfl
    · rintro ⟨printed, _⟩
      exact (printed uri rfl).symm
  | none =>
    rw [Option.none_or, whole]
    unfold Look.printed Look.linked
    dsimp only
    cases (wholeRead chunks).link with
    | some uri => simp
    | none =>
      rw [ite_self, Option.or_none]
      constructor
      · intro absent
        constructor
        · intro uri missing
          cases missing
        · intro _ _
          exact absent.symm
      · rintro ⟨_, absent⟩
        exact (absent rfl rfl).symm

/-- A URL is printed in the first chunk, and the second has a hyperlink to another. -/
def replacedUrl : List Bytes :=
  [ascii "https://a ",
    0x1b :: ascii "]8;;https://b" ++ 0x07 :: 0x1b :: ascii "]8;;" ++ [0x07]]

section Short

variable {chunks : List Bytes}

end Short

end EclipseOS.Secret.Scan
