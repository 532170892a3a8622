import EclipseOS.Abyss.Consent
import EclipseOS.PolicyEval.Glob
import EclipseOS.Policyd.Tasks.ScopeLines

/-! # What a consent grants

The scope a prompt's answer mints, read as `policyd` reads grant lines: which
applications it names, for whatever app_id the client of the window has set. -/

namespace EclipseOS.Abyss

open PolicyEval Policyd

section Pinned

variable [RegexEngine]

def appGlobs (scopes : List String) : List Glob :=
  scopes.filterMap fun scope =>
    match Scope.parse scope with
    | .ok (.appId glob) => some glob
    | _ => none

/-- One capability of this name, whose only app scope matches this app_id and no
other. -/
def PinsApp (name appId scope : String) : Prop :=
  ∃ capability, capabilities scope = some [capability] ∧ capability.name = name ∧
    ∃ glob, appGlobs capability.scopes = [glob] ∧
      ∀ other, glob.matches other = true ↔ other = appId

/-- One capability of this name, whose only scope is this window's handle. -/
def PinsWindow (name : String) (handle : UInt64) (scope : String) : Prop :=
  ∃ capability, capabilities scope = some [capability] ∧ capability.name = name ∧
    capability.scopes.map Scope.parse = [.ok (.handle handle)]

/-- The grant asked for reaches what the prompt was about and nothing else: the
application, unattended, or the window, for the task. -/
def Mint.Pinned (name : String) (window : Window) (mint : Mint) : Prop :=
  if mint.unattended then PinsApp name window.appId mint.scope
  else PinsWindow name window.handle mint.scope

end Pinned

/-! ## Reading the scopes -/

section Words

def drawnCount (text : String) : Nat := (text.toList.filterMap drawn).length

def actCapabilities : List String :=
  ["seat.focus", "seat.key", "seat.text", "seat.pointer", "seat.touch", "click"]

theorem capability_mem (act : Act) : act.capability ∈ actCapabilities := by
  cases act <;> simp [Act.capability, actCapabilities]

theorem actCapabilities_named : ∀ name ∈ actCapabilities, name ≠ "" ∧ name.length ≤ 12 ∧
    drawnCount name = name.length ∧ name.toList.all isNameChar = true := by
  decide +kernel

theorem isWord_append {start word : String} (first : IsWord start)
    (rest : ∀ char ∈ word.toList, isWhitespace char = false) : IsWord (start ++ word) := by
  refine ⟨by simp [first.1], fun char member => ?_⟩
  rw [String.toList_append, List.mem_append] at member
  rcases member with inStart | inWord
  · exact first.2 char inStart
  · exact rest char inWord

theorem toString_toList (handle : UInt64) :
    (toString handle).toList = Nat.toDigits 10 handle.toNat := Nat.toList_repr

theorem not_whitespace_of_mem_toString {handle : UInt64} {char : Char}
    (member : char ∈ (toString handle).toList) : isWhitespace char = false := by
  rw [toString_toList] at member
  have isDigit := Nat.isDigit_of_mem_toDigits (by decide) (by decide) member
  rw [Char.isDigit, Bool.and_eq_true, decide_eq_true_eq, decide_eq_true_eq] at isDigit
  have low : 48 ≤ char.toNat := UInt32.le_iff_toNat_le.mp isDigit.1
  have high : char.toNat ≤ 57 := UInt32.le_iff_toNat_le.mp isDigit.2
  simp only [isWhitespace, decide_eq_false_iff_not]
  omega

end Words

section Scopes

variable [RegexEngine] {act : Act}

theorem reads_one {scope : String} (isWord : IsWord scope)
    (valid : (Scope.parse scope).isOk = true) :
    capabilities (act.capability ++ " " ++ scope) = some [⟨act.capability, [scope], none⟩] := by
  have named := actCapabilities_named _ (capability_mem act)
  have spelled : Spelled ⟨act.capability, [scope], none⟩ :=
    ⟨named.1, List.all_eq_true.mp named.2.2.2, List.cons_ne_nil _ _, by simpa using isWord, by simpa using valid, rfl⟩
  have read := capabilities_lines (List.cons_ne_nil _ []) (List.forall_mem_singleton.mpr spelled)
  rwa [List.map_singleton, String.intercalate_singleton] at read

theorem pinsWindow_handle (handle : UInt64) :
    PinsWindow act.capability handle (act.capability ++ " " ++ ("handle:" ++ toString handle)) := by
  have isWord : IsWord ("handle:" ++ toString handle) :=
    isWord_append (by decide +kernel) fun char => not_whitespace_of_mem_toString
  have parsed := Scope.parse_handle handle
  refine ⟨⟨act.capability, ["handle:" ++ toString handle], none⟩, ?_, rfl, ?_⟩
  · exact reads_one isWord (by rw [parsed]; rfl)
  · rw [List.map_singleton, parsed]

theorem pinsApp_iff (appId : String) :
    PinsApp act.capability appId
        (act.capability ++ " " ++ ("app_id:" ++ if appId = "" then "-" else appId)) ↔
      IsWord appId ∧ Glob.Literal appId := by
  constructor
  · rintro ⟨capability, read, -, glob, only, sole⟩
    rcases Glob.sole_iff.mp sole with ⟨same, literal⟩
    have among : glob ∈ appGlobs capability.scopes := only ▸ List.mem_singleton_self glob
    rcases List.mem_filterMap.mp among with ⟨scope, inScopes, parsed⟩
    have clause : Scope.parse scope = .ok (.appId glob) := by
      split at parsed
      · rename_i found
        cases parsed
        exact found
      · cases parsed
    have isWord := (spelled_of_capabilities read _ (List.mem_singleton_self _)).words scope inScopes
    have pattern := Scope.pattern_of_parse clause
    rw [same] at literal pattern
    exact ⟨⟨pattern.1, fun char member => isWord.2 char (pattern.2 char member)⟩, literal⟩
  · rintro ⟨isWord, literal⟩
    have parsed := Scope.parse_appId isWord.1
    rw [if_neg isWord.1]
    refine ⟨⟨act.capability, ["app_id:" ++ appId], none⟩, ?_, rfl, Glob.new appId, ?_, ?_⟩
    · exact reads_one (isWord_append (by decide +kernel) isWord.2) (by rw [parsed]; rfl)
    · simp [appGlobs, parsed]
    · exact Glob.sole_iff.mpr ⟨rfl, literal⟩

end Scopes

/-! ## The prompt -/

def wholeMost : Nat := 3 * factRoom

theorem length_wholeLines_le_iff {value : String} :
    (Modal.wholeLines value).length ≤ 3 ↔ (sanitizeLine value).length ≤ wholeMost := by
  rw [wholeMost, ← length_chunks_le_iff (by decide), Modal.wholeLines]
  split
  · rename_i none
    rw [none]
    exact iff_of_true (by decide) (by decide)
  · rw [List.length_map]

theorem withWholeFact_iff (modal : Modal) (label value : String)
    (room : modal.facts.length + 3 ≤ maxFacts) :
    if (sanitizeLine value).length ≤ wholeMost then
      ∃ after, modal.withWholeFact label value 3 = .ok after ∧
        after.facts.length ≤ modal.facts.length + 3
    else modal.withWholeFact label value 3 = .error .tooLong := by
  have most : wholeMost < maxChars := by decide
  split
  · rename_i fits
    have few := length_wholeLines_le_iff.mpr fits
    rw [Modal.withWholeFact, if_neg (by omega), if_neg (by omega)]
    refine ⟨_, rfl, ?_⟩
    simp only [List.length_append, List.length_zip, List.length_cons, List.length_replicate]
    omega
  · rename_i long
    have many : 3 < (Modal.wholeLines value).length := by
      rw [← not_le, length_wholeLines_le_iff]
      exact long
    rw [Modal.withWholeFact]
    split
    · rfl
    · exact if_pos (.inl many)

theorem drawnCount_append (left right : String) :
    drawnCount (left ++ right) = drawnCount left + drawnCount right := by
  simp [drawnCount]

theorem length_sanitizeLine (value : String) :
    (sanitizeLine value).length = min maxChars (drawnCount value) := by
  rw [sanitizeLine, List.length_map, sanitize, List.length_take]
  rfl

theorem length_sanitizeLine_le (value : String) : (sanitizeLine value).length ≤ value.length := by
  have kept := List.length_filterMap_le drawn value.toList
  rw [String.length_toList] at kept
  rw [length_sanitizeLine]
  exact (Nat.min_le_right _ _).trans kept

section Prompt

variable (token : UInt64) (task : Option String) (principal : String) (req : Request)
  (window : Window)

theorem ask_taskScope : (ask task principal req window).taskScope =
    req.act.capability ++ " " ++ ("handle:" ++ toString window.handle) := by
  apply String.toList_injective
  simp [ask]
  rfl

theorem ask_unattendedScope : (ask task principal req window).unattendedScope =
    req.act.capability ++ " " ++
      ("app_id:" ++ if window.appId = "" then "-" else window.appId) := by
  apply String.toList_injective
  simp [ask]

theorem taskScope_fits :
    (sanitizeLine (ask task principal req window).taskScope).length ≤ wholeMost := by
  have named := actCapabilities_named _ (capability_mem req.act)
  have digits : (toString window.handle).length ≤ 20 := by
    rw [← String.length_toList, toString_toList, Nat.length_toDigits_le_iff (by decide) (by decide)]
    exact lt_trans window.handle.toNat_lt (by decide)
  have whole := length_sanitizeLine_le (ask task principal req window).taskScope
  have spelled := congrArg String.length (ask_taskScope task principal req window)
  have constants : " ".length = 1 ∧ "handle:".length = 7 ∧ wholeMost = 129 := by decide
  simp only [String.length_append] at spelled
  omega

theorem modal_isSome_iff : ((ask task principal req window).modal token).isSome ↔
    (sanitizeLine (ask task principal req window).unattendedScope).length ≤ wholeMost := by
  let asked := ask task principal req window
  let base : Modal := ⟨token, heading, none, "", [], well, consentButtons.map Prod.snd, false⟩
  have room : (base.withFacts asked.facts).facts.length = 7 := by
    simp [base, Modal.withFacts, Ask.facts, maxFacts]
  have first := withWholeFact_iff (base.withFacts asked.facts) "For this task" asked.taskScope
    (by rw [room]; decide)
  rw [if_pos (taskScope_fits task principal req window)] at first
  rcases first with ⟨second, added, count⟩
  have last := withWholeFact_iff second "Unattended 1h" asked.unattendedScope (by
    rw [room] at count
    exact (Nat.add_le_add_right count 3).trans (by decide))
  have both : (base.withFacts asked.facts).withWholeFact "For this task" asked.taskScope 3 >>=
      (fun modal => modal.withWholeFact "Unattended 1h" asked.unattendedScope 3) =
        second.withWholeFact "Unattended 1h" asked.unattendedScope 3 := by
    rw [added]
    rfl
  have built : (asked.modal token).isSome =
      (second.withWholeFact "Unattended 1h" asked.unattendedScope 3).toOption.isSome := by
    rw [← both]
    unfold Ask.modal
    dsimp only
    split
    · rename_i refused
      exact congrArg (·.toOption.isSome) refused.symm
    · rename_i accepted
      exact congrArg (·.toOption.isSome) accepted.symm
  show (asked.modal token).isSome ↔ (sanitizeLine asked.unattendedScope).length ≤ wholeMost
  rw [built]
  split at last
  · rename_i fits
    rcases last with ⟨third, shown, -⟩
    rw [shown]
    exact iff_of_true rfl fits
  · rename_i long
    rw [last]
    exact iff_of_false Bool.false_ne_true long

theorem unattendedScope_fits_iff :
    (sanitizeLine (ask task principal req window).unattendedScope).length ≤ wholeMost ↔
      req.act.capability.length + 8 + drawnCount window.appId ≤ wholeMost := by
  have named := actCapabilities_named _ (capability_mem req.act)
  have constants : drawnCount " " = 1 ∧ drawnCount "app_id:" = 7 ∧ drawnCount "-" = 1 ∧
      drawnCount "" = 0 ∧ wholeMost = 129 ∧ maxChars = 480 := by decide
  rw [length_sanitizeLine, ask_unattendedScope, drawnCount_append, drawnCount_append,
    drawnCount_append]
  split
  · rename_i empty
    rw [empty]
    omega
  · omega

end Prompt

/-- What a consent mints reaches the window or the application it was asked about
and nothing else, exactly if the prompt cannot show its scopes or the client's app_id
is a word without wildcards. -/
theorem consents_pinned_iff [RegexEngine] (token : UInt64) (task : Option String)
    (principal : String) (req : Request) (window : Window) :
    (∀ answer timedOut mint,
      (ask task principal req window).consent token answer timedOut = .proceed (some mint) →
        mint.Pinned req.act.capability window) ↔
    wholeMost < req.act.capability.length + 8 + drawnCount window.appId ∨
      (IsWord window.appId ∧ Glob.Literal window.appId) := by
  have shown := (modal_isSome_iff token task principal req window).trans
    (unattendedScope_fits_iff task principal req window)
  let asked := ask task principal req window
  have taskPinned : PinsWindow req.act.capability window.handle asked.taskScope := by
    rw [ask_taskScope]
    exact pinsWindow_handle window.handle
  have appPinned : PinsApp req.act.capability window.appId asked.unattendedScope ↔
      IsWord window.appId ∧ Glob.Literal window.appId := by
    rw [ask_unattendedScope]
    exact pinsApp_iff window.appId
  rw [← not_le, ← shown]
  show (∀ answer timedOut mint, asked.consent token answer timedOut = _ → _) ↔ ¬(asked.modal token).isSome ∨ _
  cases up : asked.modal token with
  | none =>
    refine iff_of_true (fun answer timedOut mint granted => ?_) (.inl Bool.false_ne_true)
    rw [Ask.consent, up] at granted
    cases granted
  | some modal =>
    have isUp : (some modal).isSome = true := rfl
    rw [← appPinned, or_iff_right (not_not.mpr isUp)]
    constructor
    · intro pinned
      refine pinned .allowUnattended false ⟨asked.unattendedScope, true⟩ ?_
      rw [Ask.consent, up]
      rfl
    · intro pinned answer timedOut mint granted
      rw [Ask.consent, up] at granted
      cases timedOut <;> cases answer <;> cases granted
      · exact taskPinned
      · exact pinned

section Examples

local instance promptEngine : RegexEngine := wordEngine

def focusOf (appId : String) : Request × Window :=
  (⟨1, 1, .focus 4, true, 0, 0⟩, ⟨4, appId, "", .public, .untrusted, false, 0⟩)

/-- An app_id with a line end in it: a consent to one act on the window mints a second
capability, over every application. -/
theorem line_end_mints_another :
    capabilities "seat.focus app_id:x\nseat.text app_id:*" =
        some [⟨"seat.focus", ["app_id:x"], none⟩, ⟨"seat.text", ["app_id:*"], none⟩] ∧
      ¬∀ answer timedOut mint,
        (ask none "agent:a" (focusOf "x\nseat.text app_id:*").1
            (focusOf "x\nseat.text app_id:*").2).consent 1 answer timedOut =
          .proceed (some mint) →
        mint.Pinned "seat.focus" (focusOf "x\nseat.text app_id:*").2 := by
  have read : capabilities "seat.focus app_id:x\nseat.text app_id:*" =
      some [⟨"seat.focus", ["app_id:x"], none⟩, ⟨"seat.text", ["app_id:*"], none⟩] := by
    decide +kernel
  refine ⟨read, fun pinned => ?_⟩
  have granted := pinned .allowUnattended false ⟨"seat.focus app_id:x\nseat.text app_id:*", true⟩
    (by decide +kernel)
  rcases granted with ⟨capability, one, -⟩
  rw [read] at one
  cases one

end Examples

end EclipseOS.Abyss
