import EclipseOS.PolicyEval.Cbor.Entries
import EclipseOS.Policyd.Dispatch
import EclipseOS.Policyd.PolicyPush

/-! # Narrowing an install

What a draft's narrowing leaves of the install's lines, and whether the slot says that
a line was left out. -/

namespace EclipseOS.Policyd

open Foundation PolicyEval Cbor

/-! ## Narrowing bytes -/

section Reading

variable {install : List String} {depth : Nat} {encoding : Bytes}

instance Local.narrowItems : ∀ left kept, Local (narrowItems install left kept)
  | 0, _ => Local.pure _
  | left + 1, kept => by
      have := fun kept => Local.narrowItems left kept
      unfold Policyd.narrowItems
      infer_instance

theorem accepts_narrowItems {left : Nat} {kept found : List String} (nodup : kept.Nodup) :
    Accepts (narrowItems install left kept) depth found encoding ↔
      ∃ listed, listed.length = left ∧ found = kept ++ listed ∧ found.Nodup ∧
        encoding = listed.flatMap Writer.text ∧
        ∀ line ∈ listed, line ∈ install ∧ (utf8 line).length < 2 ^ 64 := by
  induction left generalizing kept encoding with
  | zero =>
    simp only [narrowItems, accepts_pure, List.length_eq_zero_iff]
    constructor
    · rintro ⟨same, empty⟩
      exact ⟨[], rfl, by simp [same], same ▸ nodup, empty, List.forall_mem_nil _⟩
    · rintro ⟨listed, isEmpty, same, _, spelled, _⟩
      subst isEmpty
      exact ⟨by simpa using same, spelled⟩
  | succ left induction =>
    simp only [narrowItems, accepts_bind, accepts_text, accepts_ite, not_accepts_fail,
      and_false, false_or, not_or, not_not]
    constructor
    · rintro ⟨line, _, rest, whole, ⟨spelled, fits⟩, ⟨known, fresh⟩, items⟩
      have grown : (kept ++ [line]).Nodup := by
        have apart : ∀ other ∈ kept, ¬other = line := by
          intro other member same
          exact fresh (same ▸ member)
        rw [List.nodup_append]
        exact ⟨nodup, List.nodup_singleton line, by simpa using apart⟩
      obtain ⟨listed, count, same, distinct, spelledRest, each⟩ := (induction grown).mp items
      refine ⟨line :: listed, congrArg (· + 1) count, by simp [same], distinct, ?_, ?_⟩
      · rw [whole, spelled, spelledRest, List.flatMap_cons]
      · exact List.forall_mem_cons.mpr ⟨⟨known, fits⟩, each⟩
    · rintro ⟨listed, count, same, distinct, spelled, each⟩
      obtain ⟨line, listed, rfl⟩ := List.exists_cons_of_length_eq_add_one count
      obtain ⟨⟨known, fits⟩, rest⟩ := List.forall_mem_cons.mp each
      have grown : (kept ++ [line]).Nodup := by
        have start : (kept ++ [line]).Sublist found := by
          have whole : found = kept ++ [line] ++ listed := by simp [same]
          rw [whole]
          exact List.sublist_append_left _ _
        exact distinct.sublist start
      have fresh : line ∉ kept := by
        rw [List.nodup_append] at grown
        exact fun member => grown.2.2 line member line (List.mem_singleton_self line) rfl
      refine ⟨line, _, listed.flatMap Writer.text, ?_, ⟨rfl, fits⟩,
        ⟨known, fresh⟩, ?_⟩
      · rw [spelled, List.flatMap_cons]
      · apply (induction grown).mpr
        exact ⟨listed, by simpa using count, by simp [same], distinct, rfl, rest⟩

end Reading

theorem arrayOf_ne_nil {α : Type} (encode : α → Bytes) (items : List α) :
    arrayOf encode items ≠ [] := by
  have some := Writer.head_length_pos majorArray items.length
  intro empty
  have none := congrArg List.length empty
  rw [arrayOf, List.length_append, Writer.array, List.length_nil] at none
  omega

theorem narrow_eq_some {install kept : List String} {narrowing : Bytes} :
    narrow install narrowing = some kept ↔
      narrowing = [] ∧ kept = install ∨
        narrowing = arrayOf Writer.text kept ∧ kept.length ≤ 256 ∧ kept.Nodup ∧
          ∀ line ∈ kept, line ∈ install ∧ (utf8 line).length < 2 ^ 64 := by
  unfold narrow
  split
  · rename_i empty
    have noArray : [] ≠ arrayOf Writer.text kept := (arrayOf_ne_nil _ _).symm
    simp [empty, noArray, eq_comm]
  · rename_i some
    simp only [some, false_and, false_or]
    have toOption {result : Except Cbor.Error (List String)} :
        result.toOption = Option.some kept ↔ result = .ok kept := by
      cases result <;> simp [Except.toOption]
    rw [toOption, decodeAll_eq_ok]
    simp only [accepts_bind, accepts_arrayLen, accepts_ite, not_accepts_fail, and_false, false_or,
      accepts_narrowItems List.nodup_nil, not_lt]
    constructor
    · rintro ⟨n, _, _, whole, ⟨head, _⟩, few, listed, count, same, distinct, items, each⟩
      rw [List.nil_append] at same
      subst same count head items
      exact ⟨whole, few, distinct, each⟩
    · rintro ⟨whole, few, distinct, each⟩
      have head : kept.length < 2 ^ 64 := by omega
      exact ⟨_, _, _, whole, ⟨rfl, head⟩, few, kept, rfl, rfl, distinct, rfl, each⟩

/-! ## What is declared -/

/-- The lines kept are the install's in order, and the flag says whether any was left
out. -/
def NarrowingDeclared (install kept : List String) (narrowed : Bool) : Prop :=
  kept.Sublist install ∧ (narrowed = true ↔ kept.length < install.length)

instance (install kept : List String) (narrowed : Bool) :
    Decidable (NarrowingDeclared install kept narrowed) :=
  inferInstanceAs (Decidable (_ ∧ _))

def narrowedFlag (narrowing : Bytes) : Bool := 1 < narrowing.length

structure Spells (narrowing : Bytes) (listed : List String) : Prop where
  bytes : narrowing = arrayOf Writer.text listed
  counted : listed.length < 2 ^ 64
  fit : ∀ line ∈ listed, (utf8 line).length < 2 ^ 64

/-- The narrowing is no bytes, or lists lines in the install's order and leaves one out,
or lists none of an install that has none. -/
def NarrowsInOrder (install : List String) (narrowing : Bytes) : Prop :=
  narrowing = [] ∨ ∃ listed, Spells narrowing listed ∧ listed.Sublist install ∧
    (if listed = [] then install = [] else listed.length < install.length)

theorem Spells.unique {narrowing : Bytes} {left right : List String}
    (first : Spells narrowing left) (second : Spells narrowing right) : left = right := by
  have accepts {listed : List String} (spells : Spells narrowing listed) :
      Accepts (arrayItems text : Read Cbor.Error (List String)) 0 listed narrowing := by
    apply (accepts_arrayItems fun _ _ => accepts_text).mpr
    exact ⟨spells.bytes, spells.counted, spells.fit⟩
  exact ((accepts first).unique [] [] (accepts second) rfl).1

theorem narrowedFlag_arrayOf (listed : List String) :
    narrowedFlag (arrayOf Writer.text listed) = decide (listed ≠ []) := by
  cases listed with
  | nil => rfl
  | cons line listed =>
    have head := Writer.head_length_pos majorArray (line :: listed).length
    have item := Writer.head_length_pos majorText (utf8 line).length
    rw [narrowedFlag, arrayOf, Writer.array, List.flatMap_cons, Writer.text]
    simp only [List.length_append, ne_eq, reduceCtorEq, not_false_eq_true, decide_true,
      decide_eq_true_eq]
    omega

theorem declared_iff {install kept : List String} {narrowing : Bytes}
    (accepted : narrow install narrowing = some kept) :
    NarrowingDeclared install kept (narrowedFlag narrowing) ↔
      NarrowsInOrder install narrowing := by
  obtain ⟨empty, whole⟩ | ⟨bytes, few, _, each⟩ := narrow_eq_some.mp accepted
  · have flag : narrowedFlag narrowing = false := by
      rw [empty]
      rfl
    rw [whole, flag]
    have declared : NarrowingDeclared install install false :=
      ⟨List.Sublist.refl install, by simp⟩
    exact iff_of_true declared (.inl empty)
  · have spells : Spells narrowing kept :=
      ⟨bytes, by omega, fun line member => (each line member).2⟩
    have nonempty : narrowing ≠ [] := bytes ▸ arrayOf_ne_nil _ _
    have flag : narrowedFlag narrowing = decide (kept ≠ []) := bytes ▸ narrowedFlag_arrayOf kept
    have removed (sublist : kept.Sublist install) :
        (narrowedFlag narrowing = true ↔ kept.length < install.length) ↔
          if kept = [] then install = [] else kept.length < install.length := by
      by_cases none : kept = []
      · simp [flag, none, List.length_pos_iff]
      · simp [flag, none]
    constructor
    · intro ⟨sublist, flagged⟩
      exact .inr ⟨kept, spells, sublist, (removed sublist).mp flagged⟩
    · intro inOrder
      obtain empty | ⟨listed, spelled, sublist, left⟩ := inOrder
      · exact absurd empty nonempty
      · obtain rfl := spells.unique spelled
        exact ⟨sublist, (removed sublist).mpr left⟩

/-! ## Previews -/

namespace Entries

variable {α β : Type} [DecidableEq α]

theorem get_insert (entries : Entries α β) (key : α) (value : β) :
    (entries.insert key value).get key = some value := by
  simp [get, insert]

end Entries

section Previews

variable [Ed25519] [RegexEngine] [KdlParser] [Blake3]

theorem draft_ok {dispatch : Dispatch} {store : TaskStore} {given : Given}
    {package statement : String} {deadlineMs : UInt64} {narrowing : Bytes}
    {continuation resumes account : String} {drafted : Draft}
    (success : draft dispatch store given package statement deadlineMs narrowing continuation
      resumes account = .ok drafted) :
    dispatch.installs.get package = some drafted.install ∧
      narrow drafted.install.lines narrowing = some drafted.lines := by
  unfold draft at success
  -- the checks before the install is looked up
  replace success := (check_eq_ok.mp success).2
  replace success := (check_eq_ok.mp success).2
  replace success := (check_eq_ok.mp success).2
  replace success := (check_eq_ok.mp success).2
  cases found : dispatch.installs.get package with
  | none =>
    simp only [found] at success
    cases success
  | some install =>
    simp only [found, ok_bind] at success
    obtain ⟨manifest, _, rest⟩ := ok_of_bind_ok success
    replace rest := (check_eq_ok.mp rest).2
    cases left : narrow install.lines narrowing with
    | none =>
      simp only [left] at rest
      cases rest
    | some lines =>
      simp only [left] at rest
      replace rest := (check_eq_ok.mp rest).2
      -- what is resumed or continued has no part in either
      split at rest
      · obtain ⟨_, _, last⟩ := ok_of_bind_ok rest
        have made := (check_eq_ok.mp last).2
        cases made
        exact ⟨rfl, left⟩
      · have made := (check_eq_ok.mp rest).2
        cases made
        exact ⟨rfl, left⟩

/-- What a preview shows and keeps of a narrowing is declared exactly when the narrowing
lists lines in the install's order, and leaves one out if it lists any. -/
theorem preview_declares_iff {dispatch after : Dispatch} {store : TaskStore} {given : Given}
    {req slot preview : UInt64} {package statement : String} {deadlineMs : UInt64}
    {narrowing display : Bytes} {continuation resumes account : String} {install : Install}
    (installed : dispatch.installs.get package = some install)
    (accepted : Policyd.preview store given req slot package statement deadlineMs narrowing
      continuation resumes account dispatch =
        ([(.asker, .preview req preview display)], after)) :
    ∃ kept manifest deadline, after.previews.get preview = some kept ∧
      display = slotDisplay manifest statement deadline kept.lines (narrowedFlag narrowing)
        continuation resumes account ∧
      (NarrowingDeclared install.lines kept.lines (narrowedFlag narrowing) ↔
        NarrowsInOrder install.lines narrowing) := by
  unfold Policyd.preview at accepted
  split at accepted
  · cases accepted
  · rename_i drafted success
    obtain ⟨found, left⟩ := draft_ok success
    rw [installed] at found
    cases found
    cases accepted
    exact ⟨_, drafted.manifest, drafted.deadlineMs, Entries.get_insert _ _ _, rfl,
      declared_iff left⟩

end Previews

/-! ## A package -/

section Sample

def notesText : String :=
  "agent \x7b id \"notes\"; name \"Notes\"; version \"1\"; publisher \"local\"; entrypoint " ++
    "\"notes\"; capabilities \x7b scene.list scope \x7b app_id \"foot\"; \x7d; because " ++
    "\"find the notes\"; \x7d; \x7d"

def notesNodes : List KdlNode :=
  [⟨"agent", [], some
    [⟨"id", [argument "notes"], none⟩, ⟨"name", [argument "Notes"], none⟩,
      ⟨"version", [argument "1"], none⟩, ⟨"publisher", [argument "local"], none⟩,
      ⟨"entrypoint", [argument "notes"], none⟩,
      ⟨"capabilities", [], some
        [⟨"scene.list", [argument "scope"], some [⟨"app_id", [argument "foot"], none⟩]⟩,
          ⟨"because", [argument "find the notes"], none⟩]⟩]⟩]

local instance notesEngine : RegexEngine := wordEngine
local instance notesHash : Blake3 := startDigest
local instance notesKey : Ed25519 := soleKey
local instance notesParser : KdlParser := parserOf notesText notesNodes

def notesFiles : Files where
  canonicalize path := if path = "agents" then some ["agents"] else none
  manifest dir := if dir = ["agents", "notes", "1"] then some (utf8 notesText) else none

def notesInstall : Install where
  id := "notes"
  version := "1"
  dir := ["agents", "notes", "1"]
  manifestHash := Blake3.hash (utf8 notesText)
  lines := ["scene.list app_id:foot"]
  seq := 1

def notesDispatch : Dispatch := .«open» [("agents", .owner)] [notesInstall]

def notesStore : TaskStore := ⟨⟨[], [], []⟩, [], [], (), [], fun _ => none⟩

def notesGiven : Given where
  nowMs := 1000
  tableVersion := 1
  agentdLive := true
  files := notesFiles
  drawn := 5
  suffix := zeroBytes 3
  taskEntropy := zeroBytes 10
  grantEntropy := zeroBytes 10
  recordWritten := true

/-- The slot's preview of a task of the package. -/
def notesPreview (narrowing : Bytes) : Out × Dispatch :=
  preview notesStore notesGiven 7 1 "notes" "Find my notes" 0 narrowing "" "" "" notesDispatch

def notesManifest : Manifest where
  id := "notes"
  name := "Notes"
  version := "1"
  publisher := "local"
  entrypoint := ["notes"]
  defaultDeadlineMs := Policyd.defaultDeadlineMs
  maxDepth := 0
  capabilities := [⟨"scene.list", ["app_id:foot"], "find the notes"⟩]
  resumable := none
  sandbox := []
  inference := none

def notesDisplay (lines : List String) (narrowed : Bool) : Bytes :=
  slotDisplay notesManifest "Find my notes" Policyd.defaultDeadlineMs lines narrowed "" "" ""

/-- An array of no lines leaves nothing, and the slot says that nothing was narrowed. -/
theorem no_lines_undeclared :
    (notesPreview (arrayOf Writer.text [])).1 =
        [(.asker, .preview 7 7 (notesDisplay [] (narrowedFlag (arrayOf Writer.text []))))] ∧
      ((notesPreview (arrayOf Writer.text [])).2.previews.get 7).map (·.lines) = some [] ∧
      ¬NarrowingDeclared notesInstall.lines [] (narrowedFlag (arrayOf Writer.text [])) := by
  decide +kernel

theorem preview_declares_iff_notes :
    ∃ kept manifest deadline, (notesPreview []).2.previews.get 7 = some kept ∧
      notesDisplay notesInstall.lines false =
        slotDisplay manifest "Find my notes" deadline kept.lines (narrowedFlag []) "" "" "" ∧
      (NarrowingDeclared notesInstall.lines kept.lines (narrowedFlag []) ↔
        NarrowsInOrder notesInstall.lines []) := by
  have installed : notesDispatch.installs.get "notes" = some notesInstall := by decide +kernel
  have answered : (notesPreview []).1 =
      [(.asker, .preview 7 7 (notesDisplay notesInstall.lines false))] := by
    decide +kernel
  have accepted : notesPreview [] =
      ([(.asker, .preview 7 7 (notesDisplay notesInstall.lines false))], (notesPreview []).2) := by
    rw [← answered]
  unfold notesPreview at accepted ⊢
  exact preview_declares_iff installed accepted

end Sample

end EclipseOS.Policyd
