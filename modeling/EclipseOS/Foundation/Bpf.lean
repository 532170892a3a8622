import EclipseOS.Foundation.Fallible
import Mathlib.Logic.Basic

/-! # Forward-jumping filters

A subset of the classic packet filter machine: an accumulator, loads, masks and forward
branches. A program is laid out with branch targets of any kind and assembled to offsets. -/

namespace EclipseOS.Foundation.Bpf

def LD_W_ABS : UInt16 := 0x20

def ALU_AND_K : UInt16 := 0x54

def JEQ_K : UInt16 := 0x15

def JSET_K : UInt16 := 0x45

def RET_K : UInt16 := 0x06

/-- One assembled instruction. The offsets count from the next one. -/
structure SockFilter where
  code : UInt16
  jt : UInt8
  jf : UInt8
  k : UInt32
  deriving DecidableEq

/-- Runs a filter from `pc`. Nothing comes of a load that has no word, of an unknown
instruction or of a step past the end. -/
def runFrom (filter : List SockFilter) (word : UInt32 → Option UInt32) :
    Nat → UInt32 → Nat → Option UInt32
  | 0, _, _ => none
  | fuel + 1, a, pc =>
    match filter[pc]? with
    | none => none
    | some i =>
      if i.code = LD_W_ABS then
        (word i.k).bind fun loaded => runFrom filter word fuel loaded (pc + 1)
      else if i.code = ALU_AND_K then runFrom filter word fuel (a &&& i.k) (pc + 1)
      else if i.code = JEQ_K then
        runFrom filter word fuel a (pc + 1 + (if a = i.k then i.jt else i.jf).toNat)
      else if i.code = JSET_K then
        runFrom filter word fuel a (pc + 1 + (if a &&& i.k ≠ 0 then i.jt else i.jf).toNat)
      else if i.code = RET_K then some i.k
      else none

/-- Runs a filter. Every branch goes forward, so it takes at most a step an instruction. -/
def run (filter : List SockFilter) (word : UInt32 → Option UInt32) : Option UInt32 :=
  runFrom filter word filter.length 0 0

/-! ## Assembling -/

/-- An instruction whose branches name their targets. -/
structure Instr (τ : Type) where
  code : UInt16
  k : UInt32
  jt : τ
  jf : τ

def isJump (code : UInt16) : Bool := code = JEQ_K || code = JSET_K

/-- The offset of a branch from instruction `i`, if it fits. -/
def offset (i target : Nat) : Option UInt8 :=
  if i + 1 ≤ target ∧ target - (i + 1) < 256 then some (UInt8.ofNat (target - (i + 1))) else none

section

variable {τ : Type} (resolve : Nat → τ → Nat)

def assembleAt (i : Nat) (x : Instr τ) : Option SockFilter :=
  if isJump x.code then do
    return ⟨x.code, ← offset i (resolve i x.jt), ← offset i (resolve i x.jf), x.k⟩
  else some ⟨x.code, 0, 0, x.k⟩

/-- Assembles the instructions from position `i` on. -/
def assembleFrom : Nat → List (Instr τ) → Option (List SockFilter)
  | _, [] => some []
  | i, x :: rest => do
    return (← assembleAt resolve i x) :: (← assembleFrom (i + 1) rest)

def assemble (p : List (Instr τ)) : Option (List SockFilter) := assembleFrom resolve 0 p

/-- A branch at `i` to `target` has an offset. -/
def Reachable (i target : Nat) : Prop := i + 1 ≤ target ∧ target < i + 257

variable {resolve}

theorem offset_iff {i target : Nat} {o : UInt8} :
    offset i target = some o ↔ Reachable i target ∧ i + 1 + o.toNat = target := by
  unfold offset Reachable
  split
  · rename_i fits
    rw [Option.some_inj]
    constructor
    · rintro rfl
      rw [UInt8.toNat_ofNat', Nat.mod_eq_of_lt (by omega)]
      omega
    · rintro ⟨_, reached⟩
      apply UInt8.toNat_inj.mp
      rw [UInt8.toNat_ofNat', Nat.mod_eq_of_lt (by omega)]
      omega
  · rename_i far
    constructor
    · exact nofun
    · rintro ⟨reach, _⟩
      exact absurd ⟨reach.1, by omega⟩ far

theorem exists_offset_iff {i target : Nat} :
    (∃ o, offset i target = some o) ↔ Reachable i target := by
  constructor
  · rintro ⟨o, found⟩
    exact (offset_iff.mp found).1
  · intro reach
    refine ⟨UInt8.ofNat (target - (i + 1)), if_pos ⟨reach.1, ?_⟩⟩
    have := reach.2
    omega

theorem assembleFrom_get {i : Nat} {p : List (Instr τ)} {f : List SockFilter}
    (made : assembleFrom resolve i p = some f) :
    f.length = p.length ∧
      ∀ j x, p[j]? = some x → ∃ y, assembleAt resolve (i + j) x = some y ∧ f[j]? = some y := by
  induction p generalizing i f with
  | nil =>
    cases made
    exact ⟨rfl, fun j x found => by simp at found⟩
  | cons x rest ih =>
    simp only [assembleFrom, Option.bind_eq_bind, Option.bind_eq_some_iff, Option.pure_def,
      Option.some_inj] at made
    rcases made with ⟨y, ofHead, later, ofRest, rfl⟩
    rcases ih ofRest with ⟨length, each⟩
    refine ⟨by simp [length], fun j z found => ?_⟩
    cases j with
    | zero =>
      rw [List.getElem?_cons_zero, Option.some_inj] at found
      subst found
      exact ⟨y, ofHead, rfl⟩
    | succ j =>
      rw [List.getElem?_cons_succ] at found
      rcases each j z found with ⟨made, ofItem, at_⟩
      exact ⟨made, by rwa [show i + (j + 1) = i + 1 + j by omega], at_⟩

theorem exists_assembleFrom_iff {i : Nat} {p : List (Instr τ)} :
    (∃ f, assembleFrom resolve i p = some f) ↔ ∀ j x, p[j]? = some x → isJump x.code →
      Reachable (i + j) (resolve (i + j) x.jt) ∧ Reachable (i + j) (resolve (i + j) x.jf) := by
  induction p generalizing i with
  | nil => simp [assembleFrom]
  | cons x rest ih =>
    have split : (∃ f, assembleFrom resolve i (x :: rest) = some f) ↔
        (∃ y, assembleAt resolve i x = some y) ∧
          ∃ f, assembleFrom resolve (i + 1) rest = some f := by
      simp only [assembleFrom, Option.bind_eq_bind, Option.bind_eq_some_iff, Option.pure_def,
        Option.some_inj]
      constructor
      · rintro ⟨_, y, ofHead, f, ofRest, _⟩
        exact ⟨⟨y, ofHead⟩, f, ofRest⟩
      · rintro ⟨⟨y, ofHead⟩, f, ofRest⟩
        exact ⟨_, y, ofHead, f, ofRest, rfl⟩
    have head : (∃ y, assembleAt resolve i x = some y) ↔ (isJump x.code →
        Reachable i (resolve i x.jt) ∧ Reachable i (resolve i x.jf)) := by
      unfold assembleAt
      split
      · rename_i jumps
        simp only [Option.bind_eq_bind, Option.bind_eq_some_iff, Option.pure_def,
          Option.some_inj, jumps, forall_const, ← exists_offset_iff]
        constructor
        · rintro ⟨_, o, found, o', found', _⟩
          exact ⟨⟨o, found⟩, o', found'⟩
        · rintro ⟨⟨o, found⟩, o', found'⟩
          exact ⟨_, o, found, o', found', rfl⟩
      · rename_i straight
        simp [straight]
    rw [split, head, ih]
    constructor
    · rintro ⟨first, later⟩ j z found
      cases j with
      | zero =>
        rw [List.getElem?_cons_zero, Option.some_inj] at found
        subst found
        exact first
      | succ j =>
        rw [List.getElem?_cons_succ] at found
        have reached := later j z found
        rwa [show i + 1 + j = i + (j + 1) by omega] at reached
    · intro all
      refine ⟨all 0 x rfl, fun j z found => ?_⟩
      have reached := all (j + 1) z found
      rwa [show i + (j + 1) = i + 1 + j by omega] at reached

/-! ## Meaning -/

/-- From an instruction with this accumulator the laid-out program returns a word. -/
inductive Returns (resolve : Nat → τ → Nat) (p : List (Instr τ))
    (word : UInt32 → Option UInt32) : Nat → UInt32 → UInt32 → Prop
  | load {i a k jt jf loaded r} : p[i]? = some ⟨LD_W_ABS, k, jt, jf⟩ → word k = some loaded →
      Returns resolve p word (i + 1) loaded r → Returns resolve p word i a r
  | mask {i a k jt jf r} : p[i]? = some ⟨ALU_AND_K, k, jt, jf⟩ →
      Returns resolve p word (i + 1) (a &&& k) r → Returns resolve p word i a r
  | equal {i a k jt jf r} : p[i]? = some ⟨JEQ_K, k, jt, jf⟩ →
      Returns resolve p word (resolve i (if a = k then jt else jf)) a r →
        Returns resolve p word i a r
  | any {i a k jt jf r} : p[i]? = some ⟨JSET_K, k, jt, jf⟩ →
      Returns resolve p word (resolve i (if a &&& k ≠ 0 then jt else jf)) a r →
        Returns resolve p word i a r
  | done {i a k jt jf} : p[i]? = some ⟨RET_K, k, jt, jf⟩ → Returns resolve p word i a k

section

variable {p : List (Instr τ)} {f : List SockFilter} {word : UInt32 → Option UInt32}

theorem Returns.equal_cases {i : Nat} {a k r : UInt32} {jt jf : τ}
    (at_ : p[i]? = some ⟨JEQ_K, k, jt, jf⟩)
    (same : a = k → Returns resolve p word (resolve i jt) a r)
    (different : a ≠ k → Returns resolve p word (resolve i jf) a r) :
    Returns resolve p word i a r := by
  apply Returns.equal at_
  split
  · rename_i equal
    exact same equal
  · rename_i other
    exact different other

theorem Returns.any_cases {i : Nat} {a k r : UInt32} {jt jf : τ}
    (at_ : p[i]? = some ⟨JSET_K, k, jt, jf⟩)
    (some_ : a &&& k ≠ 0 → Returns resolve p word (resolve i jt) a r)
    (none_ : a &&& k = 0 → Returns resolve p word (resolve i jf) a r) :
    Returns resolve p word i a r := by
  apply Returns.any at_
  split
  · rename_i bits
    exact some_ bits
  · rename_i clear
    exact none_ (not_not.mp clear)

theorem assembled_straight (made : assemble resolve p = some f) {i : Nat} {x : Instr τ}
    (at_ : p[i]? = some x) (straight : isJump x.code = false) :
    f[i]? = some ⟨x.code, 0, 0, x.k⟩ := by
  rcases (assembleFrom_get made).2 i x at_ with ⟨y, ofItem, found⟩
  rw [assembleAt, straight, if_neg Bool.false_ne_true, Option.some_inj] at ofItem
  rw [found, ofItem]

theorem assembled_jump (made : assemble resolve p = some f) {i : Nat} {x : Instr τ}
    (at_ : p[i]? = some x) (jumps : isJump x.code = true) :
    ∃ jt jf, f[i]? = some ⟨x.code, jt, jf, x.k⟩ ∧ i + 1 + jt.toNat = resolve i x.jt ∧
      i + 1 + jf.toNat = resolve i x.jf := by
  rcases (assembleFrom_get made).2 i x at_ with ⟨y, ofItem, found⟩
  simp only [assembleAt, jumps, if_true, Option.bind_eq_bind, Option.bind_eq_some_iff,
    Option.pure_def, Option.some_inj, Nat.zero_add] at ofItem
  rcases ofItem with ⟨jt, toTrue, jf, toFalse, rfl⟩
  exact ⟨jt, jf, found, (offset_iff.mp toTrue).2, (offset_iff.mp toFalse).2⟩

/-- The assembled filter returns what the laid-out program does, in at most as many steps as
instructions are left. -/
theorem runFrom_of_returns (made : assemble resolve p = some f) {i : Nat} {a r : UInt32}
    (returns : Returns resolve p word i a r) {fuel : Nat} (enough : p.length ≤ i + fuel) :
    runFrom f word fuel a i = some r := by
  induction returns generalizing fuel with
  | load at_ loaded _ ih =>
    have below := (List.getElem?_eq_some_iff.mp at_).1
    obtain ⟨fuel, rfl⟩ : ∃ left, fuel = left + 1 := ⟨fuel - 1, by omega⟩
    rw [runFrom, assembled_straight made at_ rfl]
    simp only [if_true, loaded, Option.bind_some]
    exact ih (by omega)
  | mask at_ _ ih =>
    have below := (List.getElem?_eq_some_iff.mp at_).1
    obtain ⟨fuel, rfl⟩ : ∃ left, fuel = left + 1 := ⟨fuel - 1, by omega⟩
    rw [runFrom, assembled_straight made at_ rfl]
    exact ih (by omega)
  | @equal i a k jt jf r at_ _ ih =>
    have below := (List.getElem?_eq_some_iff.mp at_).1
    obtain ⟨fuel, rfl⟩ : ∃ left, fuel = left + 1 := ⟨fuel - 1, by omega⟩
    rcases assembled_jump made at_ rfl with ⟨ot, of, found, toTrue, toFalse⟩
    have target : i + 1 + (if a = k then ot else of).toNat =
        resolve i (if a = k then jt else jf) := by
      split
      · exact toTrue
      · exact toFalse
    rw [runFrom, found]
    refine (congrArg (runFrom f word fuel a) target).trans (ih ?_)
    omega
  | @any i a k jt jf r at_ _ ih =>
    have below := (List.getElem?_eq_some_iff.mp at_).1
    obtain ⟨fuel, rfl⟩ : ∃ left, fuel = left + 1 := ⟨fuel - 1, by omega⟩
    rcases assembled_jump made at_ rfl with ⟨ot, of, found, toTrue, toFalse⟩
    have target : i + 1 + (if a &&& k ≠ 0 then ot else of).toNat =
        resolve i (if a &&& k ≠ 0 then jt else jf) := by
      split
      · exact toTrue
      · exact toFalse
    rw [runFrom, found]
    refine (congrArg (runFrom f word fuel a) target).trans (ih ?_)
    omega
  | done at_ =>
    have below := (List.getElem?_eq_some_iff.mp at_).1
    obtain ⟨fuel, rfl⟩ : ∃ left, fuel = left + 1 := ⟨fuel - 1, by omega⟩
    rw [runFrom, assembled_straight made at_ rfl]
    rfl

theorem run_of_returns (made : assemble resolve p = some f) {r : UInt32}
    (returns : Returns resolve p word 0 0 r) : run f word = some r :=
  runFrom_of_returns made returns (by simp [(assembleFrom_get made).1])

end

end

end EclipseOS.Foundation.Bpf
