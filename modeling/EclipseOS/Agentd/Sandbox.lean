import EclipseOS.Foundation.Fallible
import Mathlib.Data.List.Infix

/-! # Sandbox read paths

What an agent's declaration lets it read, and the places it is kept out of. -/

namespace EclipseOS.Agentd.Sandbox

open Foundation

/-! ## Paths -/

/-- A step of a path. A `.` is no step. -/
inductive Component where
  | parentDir
  | normal (name : String)
  deriving DecidableEq

structure Path where
  rooted : Bool
  parts : List Component
  deriving DecidableEq

namespace Path

/-- `Path::components`. -/
def parse (text : String) : Path where
  rooted := text.toList.head? = some '/'
  parts := (text.toList.splitOn '/').filterMap fun name =>
    if name = [] ∨ name = ['.'] then none
    else if name = ['.', '.'] then some .parentDir
    else some (.normal (String.ofList name))

def join (path : Path) (parts : List Component) : Path := { path with parts := path.parts ++ parts }

def startsWith (path start : Path) : Bool :=
  path.rooted = start.rooted && start.parts.isPrefixOf path.parts

def of (names : List String) : Path := ⟨true, names.map .normal⟩

end Path

/-! ## File systems -/

inductive Node where
  | file
  | dir (entries : List (String × Node))
  | link (target : Path)

/-- What is at these names, links not followed. -/
def Node.lookup : Node → List String → Option Node
  | node, [] => some node
  | .dir entries, name :: rest => (entries.lookup name).bind (·.lookup rest)
  | _, _ :: _ => none

structure FileSystem where
  root : Node
  cwd : List String

namespace FileSystem

/-- Follows a path from the directory `at_`; `jump` goes on where a link leads. -/
def walk (fs : FileSystem) (jump : List String → List Component → Option (List String)) :
    List String → List Component → Option (List String)
  | at_, [] => some at_
  | at_, .parentDir :: rest => walk fs jump at_.dropLast rest
  | at_, .normal name :: rest =>
    match fs.root.lookup (at_ ++ [name]) with
    | none => none
    | some (.dir _) => walk fs jump (at_ ++ [name]) rest
    | some .file => if rest = [] then some (at_ ++ [name]) else none
    | some (.link target) => jump (if target.rooted then [] else at_) (target.parts ++ rest)

/-- Follows a path over at most so many links. -/
def follow (fs : FileSystem) : Nat → List String → List Component → Option (List String)
  | 0 => walk fs fun _ _ => none
  | links + 1 => walk fs (follow fs links)

/-- `std::fs::canonicalize`: where a path really is. -/
def canonicalize (fs : FileSystem) (path : Path) : Option (List String) :=
  fs.follow 40 (if path.rooted then [] else fs.cwd) path.parts

end FileSystem

/-! ## Declarations -/

/-- The `sandbox { ... }` block as written, unresolved. -/
structure RawDecl where
  fsRead : List String
  fsWrite : List String
  egress : List String

/-- The block after validation: absolute, existing, canonical read paths. -/
structure Decl where
  fsRead : List (List String)
  deriving DecidableEq

def SCRATCH : List String := ["tmp"]

/-- Paths no declaration may reach, relative to the owner's home. -/
def FORBIDDEN_UNDER_HOME : List (List String) :=
  [[".ssh"], [".gnupg"], [".pki"], [".mozilla"], [".config", "google-chrome"],
    [".config", "chromium"], [".config", "BraveSoftware"], [".config", "microsoft-edge"],
    [".config", "Bitwarden"], [".config", "1Password"], [".config", "KeePassXC"],
    [".password-store"], [".local", "share", "keyrings"], [".local", "share", "kwalletd"],
    [".local", "share", "eclipse"], [".local", "state", "eclipse"]]

/-- The names of an absolute path that goes up nowhere. -/
def lexical (path : Path) : Option (List String) :=
  if path.rooted then
    path.parts.mapM fun
      | .normal name => some name
      | .parentDir => none
  else none

/-- A forbidden location, as it is named under the home. -/
def underHome (home : Path) (names : List String) : Path := home.join (names.map .normal)

/-- Whether `p` is, contains, or lies inside a forbidden location. -/
def forbidden (p : List String) (home : Path) : Bool :=
  FORBIDDEN_UNDER_HOME.any fun names =>
    (Path.of p).startsWith (underHome home names) || (underHome home names).startsWith (Path.of p)

/-- A path as declared, with `~` for the home. -/
def expand (home : Option Path) (text : String) : Except String (List String) :=
  let path :=
    if text = "~" ∨ "~/".toList.isPrefixOf text.toList then
      home.map (·.join (Path.parse (String.ofList
        ((text.toList.dropWhile (· = '~')).dropWhile (· = '/')))).parts)
    else some (Path.parse text)
  match path.bind lexical with
  | some names => .ok names
  | none => .error "fs_path_invalid"

def checkWrite (home : Option Path) (text : String) : Except String Unit := do
  if SCRATCH.isPrefixOf (← expand home text) then return ()
  else throw "fs_write_outside_scratch"

/-- One declared read path, onto those granted so far. -/
def grantRead (fs : FileSystem) (home : Option Path) (granted : List (List String))
    (text : String) : Except String (List (List String)) := do
  let p ← expand home text
  if home.any (forbidden p) then throw "fs_read_forbidden"
  else if p = [] then throw "fs_read_forbidden"
  else
    match fs.canonicalize (.of p) with
    -- Missing: nothing to bind, and the agent reads nothing there.
    | none => return granted
    | some real =>
      if real = [] ∨ home.any (forbidden real) then throw "fs_read_forbidden"
      else if real ∈ granted then return granted
      else return granted ++ [real]

def RawDecl.resolve (raw : RawDecl) (fs : FileSystem) (home : Option Path) :
    Except String Decl := do
  if raw.egress ≠ [] then throw "egress_unavailable"
  else
    raw.fsWrite.forM (checkWrite home)
    return ⟨← raw.fsRead.foldlM (grantRead fs home) []⟩

/-! ## What is granted -/

/-- One path is, contains, or lies inside the other. -/
def Overlaps (a b : List String) : Prop := a <+: b ∨ b <+: a

/-- No granted path overlaps the place a forbidden location really is. -/
def StaysOut (fs : FileSystem) (home : Path) (decl : Decl) : Prop :=
  ∀ granted ∈ decl.fsRead, ∀ names ∈ FORBIDDEN_UNDER_HOME,
    ∀ real, fs.canonicalize (underHome home names) = some real → ¬Overlaps granted real

def Writable (home : Path) (text : String) : Prop :=
  ∃ names, expand (some home) text = .ok names ∧ SCRATCH <+: names

/-- A declared read path that is not refused. -/
structure Readable (fs : FileSystem) (home : Path) (text : String) (names : List String) :
    Prop where
  expands : expand (some home) text = .ok names
  named : forbidden names home = false
  below : names ≠ []
  real : ∀ real, fs.canonicalize (.of names) = some real →
    real ≠ [] ∧ forbidden real home = false

structure Accepted (raw : RawDecl) (fs : FileSystem) (home : Path) : Prop where
  egress : raw.egress = []
  writes : ∀ text ∈ raw.fsWrite, Writable home text
  reads : ∀ text ∈ raw.fsRead, ∃ names, Readable fs home text names

section

variable {fs : FileSystem} {home : Path} {raw : RawDecl} {text : String}

theorem checkWrite_ok_iff : checkWrite (some home) text = .ok () ↔ Writable home text := by
  rw [checkWrite, bind_eq_ok, Writable]
  apply exists_congr
  intro names
  apply and_congr_right
  intro _
  rw [← List.isPrefixOf_iff_prefix]
  split
  · rename_i inside
    exact iff_of_true rfl inside
  · rename_i outside
    exact iff_of_false nofun outside

theorem forM_checkWrite_ok_iff {texts : List String} :
    texts.forM (checkWrite (some home)) = .ok () ↔ ∀ text ∈ texts, Writable home text := by
  induction texts with
  | nil => exact iff_of_true rfl nofun
  | cons text texts ih =>
    rw [List.forall_mem_cons, ← ih, ← checkWrite_ok_iff]
    show (checkWrite (some home) text >>= fun _ => texts.forM (checkWrite (some home))) = _ ↔ _
    rw [bind_eq_ok]
    exact ⟨fun ⟨_, first, later⟩ => ⟨first, later⟩, fun ⟨first, later⟩ => ⟨(), first, later⟩⟩

def grants (fs : FileSystem) (granted : List (List String)) (names : List String) :
    List (List String) :=
  match fs.canonicalize (.of names) with
  | none => granted
  | some real => if real ∈ granted then granted else granted ++ [real]

theorem mem_grants {granted : List (List String)} {names place : List String} :
    place ∈ grants fs granted names ↔
      place ∈ granted ∨ fs.canonicalize (.of names) = some place := by
  unfold grants
  cases fs.canonicalize (.of names) with
  | none => simp
  | some real =>
    dsimp only
    split
    · rename_i already
      rw [Option.some_inj, or_iff_left_of_imp]
      rintro rfl
      exact already
    · rw [List.mem_append, List.mem_singleton, Option.some_inj, eq_comm]

theorem grantRead_ok_iff {granted next : List (List String)} :
    grantRead fs (some home) granted text = .ok next ↔
      ∃ names, Readable fs home text names ∧ grants fs granted names = next := by
  rw [grantRead, bind_eq_ok]
  apply exists_congr
  intro names
  have parts : Readable fs home text names ↔ expand (some home) text = .ok names ∧
      forbidden names home = false ∧ names ≠ [] ∧ ∀ real, fs.canonicalize (.of names) = some real →
        real ≠ [] ∧ forbidden real home = false :=
    ⟨fun readable => ⟨readable.expands, readable.named, readable.below, readable.real⟩,
      fun ⟨expands, named, below, real⟩ => ⟨expands, named, below, real⟩⟩
  rw [parts, and_assoc]
  apply and_congr_right
  intro _
  simp only [Option.any_some]
  by_cases named : forbidden names home = true
  · rw [if_pos named]
    exact iff_of_false nofun fun both => by simp [named] at both
  rw [if_neg named]
  by_cases top : names = []
  · rw [if_pos top]
    exact iff_of_false nofun fun both => both.1.2.1 top
  rw [if_neg top]
  have allowed : forbidden names home = false := by simpa using named
  unfold grants
  cases found : fs.canonicalize (.of names) with
  | none =>
    dsimp only
    simp only [allowed, top, ne_eq, not_false_eq_true, true_and, reduceCtorEq, false_implies,
      implies_true]
    exact ⟨fun same => Except.ok.inj same, fun same => congrArg _ same⟩
  | some real =>
    dsimp only
    by_cases refused : real = [] ∨ forbidden real home = true
    · rw [if_pos refused]
      refine iff_of_false nofun fun both => ?_
      rcases both.1.2.2 real rfl with ⟨below, outside⟩
      rcases refused with isRoot | inside
      · exact below isRoot
      · rw [inside] at outside
        cases outside
    · rw [if_neg refused]
      rw [not_or, Bool.not_eq_true] at refused
      have passes : forbidden names home = false ∧ names ≠ [] ∧ ∀ other, some real = some other →
          other ≠ [] ∧ forbidden other home = false := by
        refine ⟨allowed, top, fun other same => ?_⟩
        cases same
        exact refused
      rw [and_iff_right passes]
      split
      · exact ⟨fun same => Except.ok.inj same, fun same => congrArg _ same⟩
      · exact ⟨fun same => Except.ok.inj same, fun same => congrArg _ same⟩

theorem foldlM_grantRead {texts : List String} {granted : List (List String)} :
    ((∃ next, texts.foldlM (grantRead fs (some home)) granted = .ok next) ↔
      ∀ text ∈ texts, ∃ names, Readable fs home text names) ∧
    ∀ next, texts.foldlM (grantRead fs (some home)) granted = .ok next → ∀ place,
      place ∈ next ↔ place ∈ granted ∨ ∃ text ∈ texts, ∃ names,
        Readable fs home text names ∧ fs.canonicalize (.of names) = some place := by
  induction texts generalizing granted with
  | nil =>
    refine ⟨iff_of_true ⟨granted, rfl⟩ nofun, fun next same place => ?_⟩
    cases same
    simp
  | cons text texts ih =>
    refine ⟨?_, fun next same place => ?_⟩
    · rw [List.forall_mem_cons]
      simp only [List.foldlM_cons, bind_eq_ok, grantRead_ok_iff]
      constructor
      · rintro ⟨next, middle, ⟨names, readable, _⟩, later⟩
        exact ⟨⟨names, readable⟩, ih.1.mp ⟨next, later⟩⟩
      · rintro ⟨⟨names, readable⟩, later⟩
        rcases ih.1.mpr later with ⟨next, rest⟩
        exact ⟨next, _, ⟨names, readable, rfl⟩, rest⟩
    · simp only [List.foldlM_cons, bind_eq_ok, grantRead_ok_iff] at same
      rcases same with ⟨middle, ⟨names, readable, rfl⟩, later⟩
      rw [ih.2 next later place, mem_grants, or_assoc]
      apply or_congr_right
      constructor
      · rintro (own | ⟨other, member, found⟩)
        · exact ⟨text, List.mem_cons_self, names, readable, own⟩
        · exact ⟨other, List.mem_cons_of_mem _ member, found⟩
      · rintro ⟨other, member, names', readable', found⟩
        rcases List.mem_cons.mp member with rfl | inRest
        · have same : names' = names :=
            Except.ok.inj (readable'.expands.symm.trans readable.expands)
          exact .inl (same ▸ found)
        · exact .inr ⟨other, inRest, names', readable', found⟩

theorem resolve_eq_ok {decl : Decl} : raw.resolve fs (some home) = .ok decl ↔
    raw.egress = [] ∧ raw.fsWrite.forM (checkWrite (some home)) = .ok () ∧
      raw.fsRead.foldlM (grantRead fs (some home)) [] = .ok decl.fsRead := by
  unfold RawDecl.resolve
  by_cases egress : raw.egress = []
  · rw [if_neg (not_not.mpr egress), bind_eq_ok, and_iff_right egress]
    constructor
    · rintro ⟨_, writes, rest⟩
      rcases ok_of_bind_ok rest with ⟨granted, reads, made⟩
      cases made
      exact ⟨writes, reads⟩
    · rintro ⟨writes, reads⟩
      refine ⟨(), writes, ?_⟩
      rw [reads]
      rfl
  · rw [if_pos egress]
    exact iff_of_false nofun fun both => egress both.1

theorem resolve_ok_iff : (∃ decl, raw.resolve fs (some home) = .ok decl) ↔
    Accepted raw fs home := by
  simp only [resolve_eq_ok, forM_checkWrite_ok_iff]
  constructor
  · rintro ⟨decl, egress, writes, reads⟩
    exact ⟨egress, writes, foldlM_grantRead.1.mp ⟨_, reads⟩⟩
  · rintro ⟨egress, writes, reads⟩
    rcases foldlM_grantRead.1.mpr reads with ⟨granted, found⟩
    exact ⟨⟨granted⟩, egress, writes, found⟩

theorem mem_resolve {decl : Decl} (resolved : raw.resolve fs (some home) = .ok decl)
    {place : List String} : place ∈ decl.fsRead ↔ ∃ text ∈ raw.fsRead, ∃ names,
      Readable fs home text names ∧ fs.canonicalize (.of names) = some place := by
  rw [foldlM_grantRead.2 _ (resolve_eq_ok.mp resolved).2.2 place,
    or_iff_right List.not_mem_nil]

end

/-! ## Forbidden places -/

section

variable {fs : FileSystem} {home : Path} {raw : RawDecl}

theorem map_normal_prefix {a b : List String} :
    a.map Component.normal <+: b.map Component.normal ↔ a <+: b := by
  constructor
  · intro starts
    have names := starts.map fun part => match part with
      | .normal name => name
      | .parentDir => ""
    simpa [Function.comp_def] using names
  · exact fun starts => starts.map _

theorem startsWith_of {a b : List String} :
    (Path.of a).startsWith (Path.of b) = true ↔ b <+: a := by
  simp only [Path.startsWith, Path.of, decide_true, Bool.true_and, List.isPrefixOf_iff_prefix]
  exact map_normal_prefix

theorem forbidden_of_overlaps {names real place : List String}
    (listed : names ∈ FORBIDDEN_UNDER_HOME) (named : Path.of real = underHome home names)
    (overlaps : Overlaps place real) : forbidden place home = true := by
  apply List.any_eq_true.mpr
  refine ⟨names, listed, ?_⟩
  rw [← named, Bool.or_eq_true, startsWith_of, startsWith_of]
  exact overlaps.symm

/-- A declared read path leads into a forbidden location that links moved away from its name
under the home. -/
def LeadsIn (fs : FileSystem) (home : Path) (text : String) : Prop :=
  ∃ names, expand (some home) text = .ok names ∧ ∃ place,
    fs.canonicalize (.of names) = some place ∧ ∃ listed ∈ FORBIDDEN_UNDER_HOME, ∃ real,
      fs.canonicalize (underHome home listed) = some real ∧
        Path.of real ≠ underHome home listed ∧ Overlaps place real

/-- A granted path stays out of the forbidden places exactly when the declaration is refused
anyway, or no read path leads into one that links moved. -/
theorem resolve_staysOut_iff (fs : FileSystem) (home : Path) (raw : RawDecl) :
    (∀ decl, raw.resolve fs (some home) = .ok decl → StaysOut fs home decl) ↔
      ¬Accepted raw fs home ∨ ∀ text ∈ raw.fsRead, ¬LeadsIn fs home text := by
  constructor
  · intro safe
    by_cases accepted : Accepted raw fs home
    · right
      rintro text member ⟨names, expands, place, found, listed, isListed, real, there, _, overlaps⟩
      rcases resolve_ok_iff.mpr accepted with ⟨decl, resolved⟩
      rcases accepted.reads text member with ⟨names', readable⟩
      have same : names' = names := Except.ok.inj (readable.expands.symm.trans expands)
      have granted : place ∈ decl.fsRead :=
        (mem_resolve resolved).mpr ⟨text, member, names', readable, same ▸ found⟩
      exact safe decl resolved place granted listed isListed real there overlaps
    · exact .inl accepted
  · rintro (refused | out) decl resolved place granted listed isListed real there overlaps
    · exact refused (resolve_ok_iff.mp ⟨decl, resolved⟩)
    · rcases (mem_resolve resolved).mp granted with ⟨text, member, names, readable, found⟩
      by_cases named : Path.of real = underHome home listed
      · have inside := forbidden_of_overlaps isListed named overlaps
        rw [(readable.real place found).2] at inside
        cases inside
      · exact out text member ⟨names, readable.expands, place, found, listed, isListed, real,
          there, named, overlaps⟩

end

/-- A home reached through a link: the forbidden directories are elsewhere under their real
names. -/
def linkedHome : FileSystem where
  root := .dir
    [("home", .dir [("u", .link (.of ["data", "u"]))]),
      ("data", .dir [("u", .dir [(".ssh", .dir [("id_ed25519", .file)])])])]
  cwd := []

theorem linked_home_grants_keys : ¬∀ (fs : FileSystem) (home : Path) (raw : RawDecl) (decl : Decl),
    raw.resolve fs (some home) = .ok decl → StaysOut fs home decl := by
  intro always
  have granted : (RawDecl.mk ["/data/u/.ssh"] [] []).resolve linkedHome
      (some (.of ["home", "u"])) = .ok ⟨[["data", "u", ".ssh"]]⟩ := by
    decide +kernel
  have there : linkedHome.canonicalize (underHome (.of ["home", "u"]) [".ssh"]) =
      some ["data", "u", ".ssh"] := by
    decide +kernel
  exact always _ _ _ _ granted ["data", "u", ".ssh"] (List.mem_singleton_self _) [".ssh"]
    (List.mem_cons_self) _ there (.inl (List.prefix_refl _))

end EclipseOS.Agentd.Sandbox
