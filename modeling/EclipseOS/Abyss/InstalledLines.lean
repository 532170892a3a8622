import EclipseOS.Abyss.Displays
import EclipseOS.Policyd.InstallRecord
import EclipseOS.Policyd.Narrowing

/-! # The lines of an install

The capability lines of a manifest, where they are reviewed, stored, shown in a slot and
parsed again for a grant. -/

namespace EclipseOS.Abyss

open Foundation PolicyEval Cbor Policyd

/-- The lines an install of the manifest is granted. -/
def grantLines (manifest : Manifest) : List String := manifest.capabilities.map (·.line)

/-! ## Records and slots -/

/-- What is asked of an install: its record is read back, and the compositor reads the slot
of it with the same lines. -/
def Carried (manifest : Manifest) (install : InstallRecord) : Prop :=
  decodeInstall (encodeInstall install) = some install ∧
    ∀ statement deadlineMs narrowed continuation resumes account,
      (slotDisplay manifest statement deadlineMs install.lines narrowed continuation resumes
        account).length < 2 ^ 64 →
      ∃ shown, Shown.decode (slotDisplay manifest statement deadlineMs install.lines narrowed
        continuation resumes account) = some shown ∧ shown.could = install.lines

/-- The install of a manifest is carried if it has no more lines than the readers take, and
its directory is text. -/
theorem install_carried_iff {manifest : Manifest} {dir : Bytes} {hash : Digest} {seq : UInt64}
    (short : (encodeInstall (.ofManifest manifest dir hash seq)).length < 2 ^ 64) :
    Carried manifest (.ofManifest manifest dir hash seq) ↔
      manifest.capabilities.length ≤ 256 ∧ (fromUtf8 dir).isSome := by
  have count : (InstallRecord.ofManifest manifest dir hash seq).lines.length =
      manifest.capabilities.length :=
    List.length_map _
  rw [Carried, decodeInstall_encodeInstall_iff short, count]
  constructor
  · intro ⟨record, _⟩
    exact record
  · intro ⟨within, isText⟩
    refine ⟨⟨within, isText⟩, ?_⟩
    intro statement deadlineMs narrowed continuation resumes account fits
    have decoded := (Shown.decode_slotDisplay_iff fits).mpr ⟨count ▸ within, rfl⟩
    exact ⟨_, decoded, rfl⟩

/-! ## Grants and reviews -/

section Lines

variable [RegexEngine] [KdlParser] {text : String} {manifest : Manifest}

/-- The lines of a manifest are parsed back as what it asks for, if it asks for anything,
and they are the lines of its review and of its slots. -/
theorem grantLines_read_back (parsed : parseManifest text = .ok manifest) :
    capabilities ("\n".intercalate (grantLines manifest)) =
        (if manifest.capabilities = [] then none
        else some (manifest.capabilities.map (·.capability))) ∧
      (∀ previous display, (reviewDisplay manifest previous).length < 2 ^ 64 →
        Display.decode (reviewDisplay manifest previous) = some display →
        display.caps.map (·.line) = grantLines manifest) ∧
      ∀ statement deadlineMs narrowed continuation resumes account shown,
        (slotDisplay manifest statement deadlineMs (grantLines manifest) narrowed continuation
          resumes account).length < 2 ^ 64 →
        Shown.decode (slotDisplay manifest statement deadlineMs (grantLines manifest) narrowed
          continuation resumes account) = some shown →
        shown.could = grantLines manifest := by
  refine ⟨?_, ?_, ?_⟩
  · have lines : grantLines manifest =
        (manifest.capabilities.map (·.capability)).map lineOf := by
      rw [grantLines, List.map_map]
      rfl
    split
    · rename_i none
      rw [grantLines, none]
      rfl
    · rename_i asks
      rw [lines]
      apply capabilities_lines
      · simpa using asks
      · intro capability member
        obtain ⟨requested, listed, same⟩ := List.mem_map.mp member
        exact same ▸ parseManifest_sayable parsed requested listed
  · intro previous display short decoded
    rw [Display.reviewDisplay_eq] at short decoded
    obtain ⟨-, same⟩ := (Display.decode_mapBytes_iff short).mp decoded
    rw [same, grantLines]
    simp only [Display.ofManifest, List.map_map, Function.comp_def]
  · intro statement deadlineMs narrowed continuation resumes account shown short decoded
    obtain ⟨-, same⟩ := (Shown.decode_slotDisplay_iff short).mp decoded
    rw [same]
    rfl

end Lines

/-! ## Packages that ask for as much as they like -/

section Sample

/-- A package that asks for one capability so many times. -/
def repeatText (asked : Nat) : String :=
  "agent \x7b id \"notes\"; name \"Notes\"; version \"1\"; publisher \"local\"; entrypoint " ++
    "\"notes\"; capabilities \x7b " ++
    String.join (List.replicate asked ("scene.list scope \x7b app_id \"foot\"; \x7d; because " ++
      "\"find the notes\"; ")) ++ "\x7d; \x7d"

def repeatAsks (asked : Nat) : List KdlNode :=
  (List.replicate asked
    [⟨"scene.list", [argument "scope"], some [⟨"app_id", [argument "foot"], none⟩]⟩,
      ⟨"because", [argument "find the notes"], none⟩]).flatten

def repeatNodes (asked : Nat) : List KdlNode :=
  [⟨"agent", [], some
    [⟨"id", [argument "notes"], none⟩, ⟨"name", [argument "Notes"], none⟩,
      ⟨"version", [argument "1"], none⟩, ⟨"publisher", [argument "local"], none⟩,
      ⟨"entrypoint", [argument "notes"], none⟩,
      ⟨"capabilities", [], some (repeatAsks asked)⟩]⟩]

def repeatManifest (asked : Nat) : Manifest :=
  { notesManifest with
    capabilities := List.replicate asked ⟨"scene.list", ["app_id:foot"], "find the notes"⟩ }

attribute [local instance] notesEngine

@[reducible] def repeatParser (asked : Nat) : KdlParser :=
  parserOf (repeatText asked) (repeatNodes asked)

theorem readCapabilities_repeatAsks (asked : Nat) :
    readCapabilities none (repeatAsks asked) = .ok (repeatManifest asked).capabilities := by
  induction asked with
  | zero => rfl
  | succ asked induction =>
    have first : readCapability
        ⟨"scene.list", [argument "scope"], some [⟨"app_id", [argument "foot"], none⟩]⟩ =
        .ok ⟨"scene.list", ["app_id:foot"], ""⟩ := by
      decide +kernel
    have because : oneString ⟨"because", [argument "find the notes"], none⟩ "because" =
        .ok "find the notes" := by
      decide +kernel
    have rest : readCapabilities none (repeatAsks (asked + 1)) =
        (readCapability
          ⟨"scene.list", [argument "scope"], some [⟨"app_id", [argument "foot"], none⟩]⟩ >>=
        fun requested => oneString ⟨"because", [argument "find the notes"], none⟩ "because" >>=
        fun because => readCapabilities none (repeatAsks asked) >>=
        fun others => .ok ({ requested with because } :: others)) := by
      rw [repeatAsks, List.replicate_succ, List.flatten_cons, List.cons_append, List.cons_append,
        readCapabilities, if_neg (by decide)]
      simp only [readCapabilities, if_true]
      rfl
    rw [rest, first, because, induction]
    rfl

example : readCapabilities none (repeatAsks 2) = .ok (repeatManifest 2).capabilities := by
  decide +kernel

theorem parse_repeatText (asked : Nat) :
    @parseManifest _ (repeatParser asked) (repeatText asked) = .ok (repeatManifest asked) := by
  have parsed : (repeatParser asked).parse (repeatText asked) = .ok (repeatNodes asked) := by
    unfold repeatParser parserOf
    exact if_pos rfl
  unfold parseManifest
  rw [parsed]
  have block := readCapabilities_repeatAsks asked
  have id : oneString ⟨"id", [argument "notes"], none⟩ "id" = .ok "notes" := by rfl
  have name : oneString ⟨"name", [argument "Notes"], none⟩ "name" = .ok "Notes" := by
    rfl
  have version : oneString ⟨"version", [argument "1"], none⟩ "version" = .ok "1" := by
    rfl
  have publisher : oneString ⟨"publisher", [argument "local"], none⟩ "publisher" = .ok "local" := by
    rfl
  have entrypoint : [argument "notes"].mapM (fun entry => fieldString entry.value "entrypoint") =
      .ok ["notes"] := by
    rfl
  have unnamed : [argument "notes"].any (·.name.isSome) = false := by decide
  have complete : (repeatManifest asked).complete = .ok (repeatManifest asked) := by
    have notes : idOk "notes" = true := by rfl
    have one : idOk "1" = true := by rfl
    simp [Manifest.complete, repeatManifest, notesManifest, notes, one]
  simp [repeatNodes, readNodes, readNode, id, name, version, publisher, entrypoint, unnamed,
    KdlNode.block, block, Manifest.blank]
  exact complete

/-- A manifest may ask for nothing, and no lines do not parse. -/
theorem nothing_not_parsed :
    @parseManifest _ (repeatParser 0) (repeatText 0) = .ok (repeatManifest 0) ∧
      capabilities ("\n".intercalate (grantLines (repeatManifest 0))) ≠
        some ((repeatManifest 0).capabilities.map (·.capability)) := by
  refine ⟨parse_repeatText 0, ?_⟩
  decide +kernel

theorem grantLines_read_back_once :
    capabilities ("\n".intercalate (grantLines (repeatManifest 1))) =
        some [⟨"scene.list", ["app_id:foot"], none⟩] ∧
      (∀ display,
        Display.decode (reviewDisplay (repeatManifest 1) none) = some display →
        display.caps.map (·.line) = ["scene.list app_id:foot"]) ∧
      ∀ shown,
        Shown.decode (slotDisplay (repeatManifest 1) "Find my notes" 1000
          (grantLines (repeatManifest 1)) false "" "" "") = some shown →
        shown.could = ["scene.list app_id:foot"] := by
  have applied := @grantLines_read_back _ (repeatParser 1) _ _ (parse_repeatText 1)
  have lines : grantLines (repeatManifest 1) = ["scene.list app_id:foot"] := by decide +kernel
  obtain ⟨read, review, slot⟩ := applied
  rw [lines] at review slot
  refine ⟨read, ?_, ?_⟩
  · intro display decoded
    exact review none display (by decide +kernel) decoded
  · intro shown decoded
    rw [lines] at decoded
    exact slot _ _ _ _ _ _ shown (by decide +kernel) decoded

def repeatInstall (asked : Nat) : InstallRecord :=
  .ofManifest (repeatManifest asked) (utf8 "/agents/notes/1") (zeroBytes 32) 1

example : decodeInstall (encodeInstall (repeatInstall 2)) = some (repeatInstall 2) := by
  decide +kernel

/-- An install with one line more than the reader takes is not read back. -/
theorem long_install_lost :
    @parseManifest _ (repeatParser 257) (repeatText 257) = .ok (repeatManifest 257) ∧
      decodeInstall (encodeInstall (repeatInstall 257)) ≠ some (repeatInstall 257) ∧
      ¬Carried (repeatManifest 257) (repeatInstall 257) := by
  have short : (encodeInstall (repeatInstall 257)).length < 2 ^ 64 := by decide +kernel
  have lost : decodeInstall (encodeInstall (repeatInstall 257)) ≠ some (repeatInstall 257) := by
    intro decoded
    have within := ((decodeInstall_encodeInstall_iff short).mp decoded).1
    rw [repeatInstall, InstallRecord.ofManifest, List.length_map, repeatManifest,
      List.length_replicate] at within
    omega
  exact ⟨parse_repeatText 257, lost, fun carried => lost carried.1⟩

theorem install_carried_iff_once :
    Carried (repeatManifest 1) (repeatInstall 1) := by
  have short : (encodeInstall (repeatInstall 1)).length < 2 ^ 64 := by decide +kernel
  apply (install_carried_iff short).mpr
  decide +kernel

end Sample

end EclipseOS.Abyss
