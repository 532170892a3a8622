import Mathlib.Data.List.Basic
import Mathlib.Logic.Function.Basic

/-! # File operations and power cuts

What a directory holds while a list of file operations runs, and what is left
where the list is cut. What an operation did before the cut stays done. -/

namespace EclipseOS.Foundation

abbrev Files (Name : Type) := Name → Option (List UInt8)

inductive FileOp (Name : Type) where
  | remove (name : Name)
  | create (name : Name)
  /-- From the start of the file, over what it held. -/
  | write (name : Name) (bytes : List UInt8)
  | sync (name : Name)
  | rename (source target : Name)
  | syncDir

variable {Name : Type} [DecidableEq Name]

/-- The names a directory holds something under, in some order. -/
def Lists (files : Files Name) (listing : List Name) : Prop :=
  listing.Nodup ∧ ∀ name, name ∈ listing ↔ (files name).isSome

def Listed (files : Files Name) : Prop := ∃ listing, Lists files listing

theorem Listed.update {files : Files Name} (listed : Listed files) (name : Name)
    (value : Option (List UInt8)) : Listed (Function.update files name value) := by
  rcases listed with ⟨listing, nodup, exactly⟩
  have others : ∀ other, other ∈ listing.erase name ↔ other ≠ name ∧ (files other).isSome := by
    intro other
    rw [nodup.mem_erase_iff, exactly]
  cases value with
  | none =>
    refine ⟨listing.erase name, nodup.erase name, fun other => ?_⟩
    rw [others]
    by_cases same : other = name
    · simp [same]
    · simp [same]
  | some bytes =>
    refine ⟨name :: listing.erase name, List.nodup_cons.mpr ⟨fun member => ?_,
      nodup.erase name⟩, fun other => ?_⟩
    · exact ((others name).mp member).1 rfl
    · rw [List.mem_cons, others]
      by_cases same : other = name
      · simp [same]
      · simp [same]

namespace FileOp

def run (op : FileOp Name) (files : Files Name) : Files Name :=
  match op with
  | remove name => Function.update files name none
  | create name => Function.update files name (some [])
  | write name bytes =>
    Function.update files name ((files name).map fun old => bytes ++ old.drop bytes.length)
  | rename source target =>
    Function.update (Function.update files target (files source)) source none
  | sync _ | syncDir => files

/-- The operation cut short: of a write, the first bytes are there. -/
def partly (op : FileOp Name) (written : Nat) (files : Files Name) : Files Name :=
  match op with
  | write name bytes => (write name (bytes.take written)).run files
  | _ => files

variable {files : Files Name}

theorem listed_run (op : FileOp Name) (listed : Listed files) : Listed (op.run files) := by
  cases op with
  | remove name => exact listed.update name _
  | create name => exact listed.update name _
  | write name bytes => exact listed.update name _
  | rename source target => exact (listed.update target _).update source _
  | sync name => exact listed
  | syncDir => exact listed

theorem listed_partly (op : FileOp Name) (written : Nat) (listed : Listed files) :
    Listed (op.partly written files) := by
  cases op with
  | write name bytes => exact listed.update name _
  | _ => exact listed

end FileOp

/-- What the operations do, one after the other. -/
def runAll (ops : List (FileOp Name)) (files : Files Name) : Files Name :=
  ops.foldl (fun files op => op.run files) files

/-- What is left after `finished` operations and `written` bytes of the next. -/
def crashed (ops : List (FileOp Name)) (finished written : Nat) (files : Files Name) :
    Files Name :=
  match finished, ops with
  | _, [] => files
  | 0, op :: _ => op.partly written files
  | finished + 1, op :: ops => crashed ops finished written (op.run files)

section Runs

variable {ops : List (FileOp Name)} {files : Files Name}

@[simp] theorem runAll_nil : runAll [] files = files := rfl

@[simp] theorem runAll_cons {op : FileOp Name} :
    runAll (op :: ops) files = runAll ops (op.run files) := rfl

@[simp] theorem crashed_nil {finished written : Nat} :
    crashed [] finished written files = files := by
  cases finished <;> rfl

@[simp] theorem crashed_zero {op : FileOp Name} {written : Nat} :
    crashed (op :: ops) 0 written files = op.partly written files := rfl

@[simp] theorem crashed_succ {op : FileOp Name} {finished written : Nat} :
    crashed (op :: ops) (finished + 1) written files =
      crashed ops finished written (op.run files) := rfl

theorem listed_crashed (ops : List (FileOp Name)) {files : Files Name} (listed : Listed files)
    (finished written : Nat) : Listed (crashed ops finished written files) := by
  induction ops generalizing files finished with
  | nil => rwa [crashed_nil]
  | cons op ops induction =>
    cases finished with
    | zero => exact op.listed_partly written listed
    | succ finished => exact induction (op.listed_run listed) finished

theorem crashed_of_length_le {finished : Nat} (all : ops.length ≤ finished) (written : Nat) :
    crashed ops finished written files = runAll ops files := by
  induction ops generalizing files finished with
  | nil => exact crashed_nil
  | cons op ops induction =>
    cases finished with
    | zero => exact absurd all (Nat.not_succ_le_zero _)
    | succ finished => exact induction (Nat.le_of_succ_le_succ all)

theorem listed_runAll (listed : Listed files) : Listed (runAll ops files) := by
  rw [← crashed_of_length_le (Nat.le_refl _) 0]
  exact listed_crashed ops listed _ _

end Runs

/-! ## A file replaced as a whole -/

/-- Writes a file beside the target, then puts it in the target's place. -/
def writeAtomic (temporary target : Name) (bytes : List UInt8) : List (FileOp Name) :=
  [.remove temporary, .create temporary, .write temporary bytes, .sync temporary,
    .rename temporary target, .syncDir]

section Replaced

variable {temporary target name : Name}

theorem runAll_writeAtomic (apart : temporary ≠ target) (bytes : List UInt8) (files : Files Name)
    (other : name ≠ temporary) :
    runAll (writeAtomic temporary target bytes) files name =
      Function.update files target (some bytes) name := by
  simp only [writeAtomic, runAll_cons, runAll_nil, FileOp.run, Function.update_of_ne other]
  by_cases same : name = target
  · subst same
    simp
  · simp [Function.update_of_ne same, Function.update_of_ne other]

theorem crashed_writeAtomic (apart : temporary ≠ target) (bytes : List UInt8)
    (files : Files Name) (finished written : Nat) :
    (finished ≤ 4 ∧ ∀ name, name ≠ temporary →
        crashed (writeAtomic temporary target bytes) finished written files name = files name) ∨
      (5 ≤ finished ∧ ∀ name, name ≠ temporary →
        crashed (writeAtomic temporary target bytes) finished written files name =
          Function.update files target (some bytes) name) := by
  match finished with
  | 0 | 1 | 2 | 3 | 4 =>
    refine .inl ⟨by omega, fun name other => ?_⟩
    simp [writeAtomic, FileOp.run, FileOp.partly, Function.update_of_ne other]
  | finished + 5 =>
    refine .inr ⟨by omega, fun name other => ?_⟩
    rw [← runAll_writeAtomic apart bytes files other]
    cases finished with
    | zero => rfl
    | succ finished => rw [crashed_of_length_le (Nat.le_add_left 6 finished)]

end Replaced

/-! ## A file overwritten and removed -/

/-- Fills a file with zeros where it stands, then removes it. -/
def shred (name : Name) (length : Nat) : List (FileOp Name) :=
  [.write name (List.replicate length 0), .sync name, .remove name, .syncDir]

section Shredded

variable {name : Name} {bytes : List UInt8} {files : Files Name}

theorem runAll_shred (length : Nat) :
    runAll (shred name length) files = Function.update files name none := by
  simp [shred, FileOp.run]

/-- Whether a cut leaves the file in place with zeros in it. -/
def ShredCut (finished written : Nat) : Prop :=
  finished = 0 ∧ 0 < written ∨ finished = 1 ∨ finished = 2

instance (finished written : Nat) : Decidable (ShredCut finished written) :=
  inferInstanceAs (Decidable (_ ∨ _))

theorem crashed_shred_cut (held : files name = some bytes) (filled : bytes ≠ [])
    {finished written : Nat} (cut : ShredCut finished written) :
    ∃ rest, crashed (shred name bytes.length) finished written files name =
      some (0 :: rest) := by
  cases bytes with
  | nil => exact absurd rfl filled
  | cons byte bytes =>
    rcases cut with ⟨rfl, positive⟩ | rfl | rfl
    · cases written with
      | zero => exact absurd positive (Nat.lt_irrefl 0)
      | succ written =>
        refine ⟨(List.replicate bytes.length 0).take written ++
          bytes.drop (min written bytes.length), ?_⟩
        simp [shred, FileOp.partly, FileOp.run, held, List.replicate_succ]
    · exact ⟨List.replicate bytes.length 0, by simp [shred, FileOp.run, FileOp.partly, held,
        List.replicate_succ]⟩
    · exact ⟨List.replicate bytes.length 0, by simp [shred, FileOp.run, FileOp.partly, held,
        List.replicate_succ]⟩

theorem crashed_shred (held : files name = some bytes) {finished written : Nat}
    (whole : ¬ShredCut finished written) :
    crashed (shred name bytes.length) finished written files = files ∨
      crashed (shred name bytes.length) finished written files =
        Function.update files name none := by
  match finished with
  | 0 =>
    have none : written = 0 := by
      by_contra positive
      exact whole (.inl ⟨rfl, Nat.pos_of_ne_zero positive⟩)
    subst none
    refine .inl ?_
    funext other
    by_cases same : other = name
    · subst same
      simp [shred, FileOp.partly, FileOp.run, held]
    · simp [shred, FileOp.partly, FileOp.run, Function.update_of_ne same]
  | 1 => exact absurd (.inr (.inl rfl)) whole
  | 2 => exact absurd (.inr (.inr rfl)) whole
  | finished + 3 =>
    refine .inr ?_
    rw [← runAll_shred bytes.length]
    cases finished with
    | zero => rfl
    | succ finished => rw [crashed_of_length_le (Nat.le_add_left 4 finished)]

end Shredded

end EclipseOS.Foundation
