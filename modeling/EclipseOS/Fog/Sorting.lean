import Mathlib.Data.List.Sort
import Mathlib.Data.List.TakeWhile
import Mathlib.Tactic.Ring
import EclipseOS.Fog.Listing

/-! # The order of a listing

Names compare by keys: a digit run is its number, any other byte is itself without case.
The keys make the natural order total, and with it the comparisons of a listing, but for
one: by size, two folders compare by their names and a folder and a file by their sizes,
and the two need not agree. -/

namespace EclipseOS.Fog.Views

/-! ## Names -/

def runValue (run : Name) : Nat := run.foldl (fun value digit => 10 * value + (digit.toNat - 48)) 0

/-- What a name is compared by. A number sorts where its digits do. -/
def nameKeys : Name → List (List Nat)
  | [] => []
  | byte :: rest =>
    if isDigit byte then
      [48, runValue ((byte :: rest).takeWhile isDigit)] ::
        nameKeys (rest.dropWhile isDigit)
    else
      [(toAsciiLowercase byte).toNat] :: nameKeys rest
termination_by name => name.length
decreasing_by
  · exact Nat.lt_succ_of_le (List.dropWhile_sublist isDigit).length_le
  · simp

theorem isDigit_iff {byte : UInt8} :
    isDigit byte = true ↔ 48 ≤ byte.toNat ∧ byte.toNat ≤ 57 := by
  simp [isDigit, UInt8.le_iff_toNat_le]

theorem compare_scaled {v w x y : Nat} (left : x < 10) (right : y < 10) :
    compare (10 * v + x) (10 * w + y) = (compare v w).then (compare x y) := by
  rcases Nat.lt_trichotomy v w with less | same | more
  · rw [Nat.compare_eq_lt.mpr less, Nat.compare_eq_lt.mpr (by omega)]
    rfl
  · subst same
    rcases Nat.lt_trichotomy x y with less | same | more
    · rw [Nat.compare_eq_lt.mpr less, Nat.compare_eq_lt.mpr (by omega)]
      simp
    · subst same
      simp
    · rw [Nat.compare_eq_gt.mpr more, Nat.compare_eq_gt.mpr (by omega)]
      simp
  · rw [Nat.compare_eq_gt.mpr more, Nat.compare_eq_gt.mpr (by omega)]
    rfl

theorem compare_toNat (a b : UInt8) : compare a b = compare a.toNat b.toNat := by
  simp only [compare, compareOfLessAndEq, UInt8.lt_iff_toNat_lt, ← UInt8.toNat_inj]

theorem compare_digits {a b : UInt8} (left : isDigit a = true) (right : isDigit b = true) :
    compare (a.toNat - 48) (b.toNat - 48) = compare a b := by
  rw [isDigit_iff] at left right
  rw [compare_toNat]
  rcases Nat.lt_trichotomy a.toNat b.toNat with less | same | more
  · rw [Nat.compare_eq_lt.mpr less, Nat.compare_eq_lt.mpr (by omega)]
  · rw [same]
    simp
  · rw [Nat.compare_eq_gt.mpr more, Nat.compare_eq_gt.mpr (by omega)]

/-- Runs of one length compare as their numbers do, whatever digits stand before them. -/
theorem compare_folds : ∀ {a b : Name} {v w : Nat},
    a.length = b.length → (∀ byte ∈ a, isDigit byte = true) →
      (∀ byte ∈ b, isDigit byte = true) →
        compare (a.foldl (fun value digit => 10 * value + (digit.toNat - 48)) v)
          (b.foldl (fun value digit => 10 * value + (digit.toNat - 48)) w) =
            (compare v w).then (compare a b)
  | [], [], v, w, _, _, _ => by simp
  | x :: xs, y :: ys, v, w, lengths, left, right => by
      have first := isDigit_iff.mp (left x List.mem_cons_self)
      have second := isDigit_iff.mp (right y List.mem_cons_self)
      rw [List.foldl_cons, List.foldl_cons,
        compare_folds (Nat.succ.inj lengths)
          (fun byte member => left byte (List.mem_cons_of_mem x member))
          (fun byte member => right byte (List.mem_cons_of_mem y member)),
        compare_scaled (by omega) (by omega),
        compare_digits (left x List.mem_cons_self) (right y List.mem_cons_self),
        List.compare_cons_cons, Ordering.then_assoc]

theorem runValue_fold_lt : ∀ {run : Name} {v : Nat}, (∀ byte ∈ run, isDigit byte = true) →
    v * 10 ^ run.length ≤ run.foldl (fun value digit => 10 * value + (digit.toNat - 48)) v ∧
      run.foldl (fun value digit => 10 * value + (digit.toNat - 48)) v <
        (v + 1) * 10 ^ run.length
  | [], v, _ => by simp
  | x :: xs, v, digits => by
      have first := isDigit_iff.mp (digits x List.mem_cons_self)
      have rest := runValue_fold_lt (v := 10 * v + (x.toNat - 48))
        fun byte member => digits byte (List.mem_cons_of_mem x member)
      rw [List.foldl_cons, List.length_cons, Nat.pow_succ']
      constructor
      · calc v * (10 * 10 ^ xs.length) = 10 * v * 10 ^ xs.length := by ring
          _ ≤ (10 * v + (x.toNat - 48)) * 10 ^ xs.length := by gcongr; omega
          _ ≤ _ := rest.1
      · calc _ < (10 * v + (x.toNat - 48) + 1) * 10 ^ xs.length := rest.2
          _ ≤ 10 * (v + 1) * 10 ^ xs.length := by gcongr; omega
          _ = (v + 1) * (10 * 10 ^ xs.length) := by ring

theorem pow_le_runValue {first : UInt8} {run : Name}
    (digits : ∀ byte ∈ first :: run, isDigit byte = true) (counts : first ≠ 48) :
    10 ^ run.length ≤ runValue (first :: run) := by
  have digit := isDigit_iff.mp (digits first List.mem_cons_self)
  have positive : first.toNat ≠ 48 := fun equal => counts (UInt8.toNat_inj.mp equal)
  have bounds := runValue_fold_lt (v := first.toNat - 48)
    fun byte member => digits byte (List.mem_cons_of_mem first member)
  simp only [runValue, List.foldl_cons, Nat.mul_zero, Nat.zero_add]
  exact le_trans (Nat.le_mul_of_pos_left _ (by omega)) bounds.1

theorem runValue_stripped : ∀ (run : Name), runValue (run.dropWhile (· = 48)) = runValue run
  | [] => rfl
  | x :: xs => by
      by_cases zero : x = 48
      · subst zero
        rw [List.dropWhile_cons_of_pos (by simp), runValue_stripped xs]
        rfl
      · rw [List.dropWhile_cons_of_neg (by simpa using zero)]

/-- Runs without leading zeros: the longer is the larger, and of one length they compare
digit by digit. -/
theorem compare_runs {a b : Name} (left : ∀ byte ∈ a, isDigit byte = true)
    (right : ∀ byte ∈ b, isDigit byte = true) (leftCounts : a.head? ≠ some 48)
    (rightCounts : b.head? ≠ some 48) :
    (compare a.length b.length).then (compare a b) = compare (runValue a) (runValue b) := by
  have upper : ∀ {run : Name}, (∀ byte ∈ run, isDigit byte = true) →
      runValue run < 10 ^ run.length := by
    intro run digits
    have bound := (runValue_fold_lt (v := 0) digits).2
    simpa [runValue] using bound
  have lower : ∀ {run : Name}, (∀ byte ∈ run, isDigit byte = true) → run.head? ≠ some 48 →
      ∀ n < run.length, 10 ^ n ≤ runValue run := by
    intro run digits counts n shorter
    cases run with
    | nil => exact absurd shorter (Nat.not_lt_zero n)
    | cons first rest =>
      have large := pow_le_runValue digits fun zero => counts (by rw [zero]; rfl)
      exact le_trans (Nat.pow_le_pow_right (by omega) (Nat.lt_succ_iff.mp shorter)) large
  rcases Nat.lt_trichotomy a.length b.length with less | same | more
  · have smaller := lt_of_lt_of_le (upper left) (lower right rightCounts a.length less)
    rw [Nat.compare_eq_lt.mpr less, Nat.compare_eq_lt.mpr smaller]
    rfl
  · rw [same]
    simpa [runValue] using (compare_folds (v := 0) (w := 0) same left right).symm
  · have larger := lt_of_lt_of_le (upper right) (lower left leftCounts b.length more)
    rw [Nat.compare_eq_gt.mpr more, Nat.compare_eq_gt.mpr larger]
    rfl

theorem toNat_toAsciiLowercase (byte : UInt8) :
    (toAsciiLowercase byte).toNat =
      if 65 ≤ byte.toNat ∧ byte.toNat ≤ 90 then byte.toNat + 32 else byte.toNat := by
  simp only [toAsciiLowercase, UInt8.le_iff_toNat_le, UInt8.toNat_ofNat]
  split
  · rw [UInt8.toNat_add, show UInt8.toNat 32 = 32 from rfl, Nat.mod_eq_of_lt (by omega)]
  · rfl

theorem compare_digit_other {digit other : UInt8} (is : isDigit digit = true)
    (isNot : ¬ isDigit other = true) :
    compare (toAsciiLowercase digit) (toAsciiLowercase other) ≠ .eq ∧
      compare (toAsciiLowercase digit) (toAsciiLowercase other) =
        compare 48 (toAsciiLowercase other).toNat := by
  rw [isDigit_iff] at is isNot
  rw [compare_toNat, toNat_toAsciiLowercase, toNat_toAsciiLowercase]
  have kept : ¬ (65 ≤ digit.toNat ∧ digit.toNat ≤ 90) := by omega
  rw [if_neg kept]
  split
  · rw [Nat.compare_eq_lt.mpr (by omega), Nat.compare_eq_lt.mpr (by omega)]
    exact ⟨by simp, rfl⟩
  · rcases Nat.lt_or_ge other.toNat 48 with below | above
    · rw [Nat.compare_eq_gt.mpr (by omega), Nat.compare_eq_gt.mpr (by omega)]
      exact ⟨by simp, rfl⟩
    · rw [Nat.compare_eq_lt.mpr (by omega), Nat.compare_eq_lt.mpr (by omega)]
      exact ⟨by simp, rfl⟩

theorem nameKeys_digit {byte : UInt8} {rest : Name} (digit : isDigit byte = true) :
    nameKeys (byte :: rest) =
      [48, runValue ((byte :: rest).takeWhile isDigit)] :: nameKeys (rest.dropWhile isDigit) := by
  rw [nameKeys, if_pos digit]

theorem nameKeys_other {byte : UInt8} {rest : Name} (other : ¬ isDigit byte = true) :
    nameKeys (byte :: rest) = [(toAsciiLowercase byte).toNat] :: nameKeys rest := by
  rw [nameKeys, if_neg other]

theorem compare_digitRuns (a b : Name) :
    (compare (digitRun a).1.length (digitRun b).1.length).then
        (compare (digitRun a).1 (digitRun b).1) =
      compare (runValue (a.takeWhile isDigit)) (runValue (b.takeWhile isDigit)) := by
  have digits : ∀ (name : Name), ∀ byte ∈ (digitRun name).1, isDigit byte = true := by
    intro name byte member
    exact List.mem_takeWhile_imp ((List.dropWhile_sublist _).mem member)
  have counts : ∀ (name : Name), (digitRun name).1.head? ≠ some 48 := by
    intro name zero
    have first := List.head?_dropWhile_not (fun byte : UInt8 => decide (byte = 48))
      (name.takeWhile isDigit)
    simp only [digitRun] at zero
    rw [zero] at first
    simp at first
  rw [compare_runs (digits a) (digits b) (counts a) (counts b)]
  simp only [digitRun, runValue_stripped]

theorem nameKeys_ne_nil {byte : UInt8} {rest : Name} : nameKeys (byte :: rest) ≠ [] := by
  by_cases digit : isDigit byte = true
  · rw [nameKeys_digit digit]
    exact List.cons_ne_nil _ _
  · rw [nameKeys_other digit]
    exact List.cons_ne_nil _ _

theorem compare_nil_left {keys : List (List Nat)} (some : keys ≠ []) : compare [] keys = .lt := by
  cases keys with
  | nil => exact absurd rfl some
  | cons key rest => rfl

theorem compare_nil_right {keys : List (List Nat)} (some : keys ≠ []) :
    compare keys [] = .gt := by
  cases keys with
  | nil => exact absurd rfl some
  | cons key rest => rfl

/-- The comparison of two names is that of their keys, and of `whole` where these agree.
The induction follows the fuel, of which a step spends one for a byte at least. -/
theorem naturalFrom_eq (whole : Ordering) : ∀ (fuel : Nat) (a b : Name), a.length ≤ fuel →
    naturalFrom whole fuel a b = (compare (nameKeys a) (nameKeys b)).then whole
  | fuel, [], [], _ => by
      cases fuel <;> simp [naturalFrom, nameKeys]
  | fuel, [], y :: ys, _ => by
      have shorter : compare 0 (ys.length + 1) = .lt := Nat.compare_eq_lt.mpr (Nat.succ_pos _)
      rw [nameKeys.eq_1, compare_nil_left nameKeys_ne_nil]
      cases fuel <;> simp [naturalFrom, shorter]
  | fuel + 1, x :: xs, [], _ => by
      have longer : compare (xs.length + 1) 0 = .gt := Nat.compare_eq_gt.mpr (Nat.succ_pos _)
      rw [nameKeys.eq_1, compare_nil_right nameKeys_ne_nil]
      simp [naturalFrom, longer]
  | fuel + 1, x :: xs, y :: ys, enough => by
      have shorter : xs.length ≤ fuel := Nat.succ_le_succ_iff.mp enough
      have skipped : (xs.dropWhile isDigit).length ≤ fuel :=
        le_trans (List.dropWhile_sublist isDigit).length_le shorter
      by_cases first : isDigit x = true
      · by_cases second : isDigit y = true
        · have later := naturalFrom_eq whole fuel (xs.dropWhile isDigit) (ys.dropWhile isDigit)
            skipped
          have restX : (digitRun (x :: xs)).2 = xs.dropWhile isDigit :=
            List.dropWhile_cons_of_pos first
          have restY : (digitRun (y :: ys)).2 = ys.dropWhile isDigit :=
            List.dropWhile_cons_of_pos second
          rw [nameKeys_digit first, nameKeys_digit second, naturalFrom,
            if_pos ⟨first, second⟩]
          simp only [restX, restY, later, compare_digitRuns, List.compare_cons_cons]
          cases compare (runValue ((x :: xs).takeWhile isDigit))
            (runValue ((y :: ys).takeWhile isDigit)) <;> simp
        · have sides := compare_digit_other first second
          rw [nameKeys_digit first, nameKeys_other second, naturalFrom,
            if_neg fun both => second both.2]
          simp only [List.compare_cons_cons, ← sides.2]
          cases order : compare (toAsciiLowercase x) (toAsciiLowercase y) with
          | eq => exact absurd order sides.1
          | lt => rfl
          | gt => rfl
      · by_cases second : isDigit y = true
        · have sides := compare_digit_other second first
          have swapped : compare (toAsciiLowercase x) (toAsciiLowercase y) =
              compare (toAsciiLowercase x).toNat 48 := by
            rw [Std.OrientedOrd.eq_swap, sides.2, ← Std.OrientedOrd.eq_swap]
          have different : compare (toAsciiLowercase x) (toAsciiLowercase y) ≠ .eq := by
            intro same
            rw [Std.OrientedOrd.eq_swap, Ordering.swap_eq_eq] at same
            exact sides.1 same
          rw [nameKeys_other first, nameKeys_digit second, naturalFrom,
            if_neg fun both => first both.1]
          simp only [List.compare_cons_cons, ← swapped]
          cases order : compare (toAsciiLowercase x) (toAsciiLowercase y) with
          | eq => exact absurd order different
          | lt => rfl
          | gt => rfl
        · have later := naturalFrom_eq whole fuel xs ys shorter
          rw [nameKeys_other first, nameKeys_other second, naturalFrom,
            if_neg fun both => first both.1]
          simp only [List.compare_cons_cons, ← compare_toNat, later]
          cases compare (toAsciiLowercase x) (toAsciiLowercase y) <;> simp

/-- Two names by their keys, which leave case and leading zeros out, and by their bytes where
the keys agree. -/
theorem natural_eq (a b : Name) :
    natural a b = (compare (nameKeys a) (nameKeys b)).then (compare a b) :=
  naturalFrom_eq (compare a b) a.length a b le_rfl

theorem natural_eq_lex :
    natural = compareLex (compareOn nameKeys) (compare : Name → Name → Ordering) :=
  funext fun a => funext fun b => natural_eq a b

instance : Std.TransCmp natural := by
  rw [natural_eq_lex]
  infer_instance

instance : Std.LawfulEqCmp natural where
  compare_self := by
    intro a
    rw [natural_eq]
    simp
  eq_of_compare := by
    intro a b same
    rw [natural_eq, Ordering.then_eq_eq] at same
    exact Std.LawfulEqOrd.eq_of_compare same.2

/-! ## Comparisons -/

/-- A comparison orders these strictly and totally. -/
structure OrdersTotally {α : Type} (cmp : α → α → Ordering) (members : List α) : Prop where
  irreflexive : ∀ a ∈ members, cmp a a ≠ .lt
  antisymmetric : ∀ a ∈ members, ∀ b ∈ members, cmp b a = (cmp a b).swap
  transitive : ∀ a ∈ members, ∀ b ∈ members, ∀ c ∈ members,
    cmp a b = .lt → cmp b c = .lt → cmp a c = .lt
  total : ∀ a ∈ members, ∀ b ∈ members, a ≠ b → cmp a b ≠ .eq

theorem OrdersTotally.of_cmp {α : Type} {cmp : α → α → Ordering} [Std.TransCmp cmp]
    {members : List α}
    (apart : ∀ a ∈ members, ∀ b ∈ members, cmp a b = .eq → a = b) :
    OrdersTotally cmp members where
  irreflexive := by
    intro a member less
    rw [(Std.ReflCmp.compare_self : cmp a a = .eq)] at less
    cases less
  antisymmetric := fun a _ b _ => Std.OrientedCmp.eq_swap
  transitive := fun a _ b _ c _ => Std.TransCmp.lt_trans
  total := fun a left b right different same => different (apart a left b right same)

theorem transCmp_then {α : Type} {first second : α → α → Ordering} (left : Std.TransCmp first)
    (right : Std.TransCmp second) : Std.TransCmp fun a b => (first a b).then (second a b) :=
  inferInstanceAs (Std.TransCmp (compareLex first second))

theorem transCmp_comp {α β : Type} {cmp : β → β → Ordering} (view : α → β)
    (order : Std.TransCmp cmp) : Std.TransCmp fun a b => cmp (view a) (view b) where
  eq_swap := Std.OrientedCmp.eq_swap
  isLE_trans := Std.TransCmp.isLE_trans

theorem transCmp_swap {α : Type} {cmp : α → α → Ordering} (order : Std.TransCmp cmp) :
    Std.TransCmp fun a b => (cmp a b).swap := by
  have swapped : (fun a b => (cmp a b).swap) = fun a b => cmp b a :=
    funext fun a => funext fun b => (Std.OrientedCmp.eq_swap : cmp b a = _).symm
  rw [swapped]
  infer_instance

theorem transCmp_eq {α : Type} : Std.TransCmp fun _ _ : α => Ordering.eq where
  eq_swap := rfl
  isLE_trans := fun _ _ => rfl

theorem transCmp_directed {α : Type} {cmp : α → α → Ordering} (reverse : Bool)
    (order : Std.TransCmp cmp) :
    Std.TransCmp fun a b => if reverse then (cmp a b).swap else cmp a b := by
  cases reverse with
  | true => exact transCmp_swap order
  | false => exact order

theorem pairwise_insertionSort_of_mem {α : Type} {r : α → α → Prop} [DecidableRel r]
    {members : List α} (total : ∀ a ∈ members, ∀ b ∈ members, r a b ∨ r b a)
    (trans : ∀ a ∈ members, ∀ b ∈ members, ∀ c ∈ members, r a b → r b c → r a c) :
    (members.insertionSort r).Pairwise r := by
  let within : {a // a ∈ members} → {a // a ∈ members} → Prop := fun a b => r a.1 b.1
  have : DecidableRel within := fun a b => inferInstanceAs (Decidable (r a.1 b.1))
  have : Std.Total within := ⟨fun a b => total a.1 a.2 b.1 b.2⟩
  have : IsTrans _ within := ⟨fun a b c => trans a.1 a.2 b.1 b.2 c.1 c.2⟩
  have sorted := List.pairwise_insertionSort within members.attach
  have same := List.map_insertionSort within r Subtype.val members.attach
    fun a _ b _ => Iff.rfl
  rw [List.attach_map_subtype_val] at same
  rw [← same, List.pairwise_map]
  exact sorted

/-! ## Listings -/

/-- What each pair of a listing's rows keeps, the upper row first. -/
def Shown (lower : Name → String) (entries : List Entry) (sort : Sorting)
    (keeps : Entry → Entry → Prop) : Prop :=
  (orderBy lower entries sort).Pairwise fun i j =>
    ∀ a ∈ entries[i]?, ∀ b ∈ entries[j]?, keeps a b

/-- The metadata a listing is sorted by has not been read yet. -/
def unread (sort : Sorting) (entry : Entry) : Bool :=
  match sort.key with
  | .size => entry.size.isNone
  | .modified => entry.mtimeNs.isNone
  | _ => false

/-- What the order of a listing promises. Folders' own sizes mean nothing, so by size a
pair of folders promises nothing of unread ones. -/
structure Sorts (lower : Name → String) (entries : List Entry) (sort : Sorting) : Prop where
  comparison : OrdersTotally (compareBy lower sort) entries
  permutation : (orderBy lower entries sort).Perm (List.range entries.length)
  ascending : Shown lower entries sort fun a b => compareBy lower sort a b = .lt
  folders : sort.dirsFirst → Shown lower entries sort fun a b => b.isDir → a.isDir
  unknown : Shown lower entries sort fun a b =>
    (sort.dirsFirst → a.isDir = b.isDir) → ¬ (sort.key = .size ∧ a.isDir ∧ b.isDir) →
      unread sort a → unread sort b

/-- Entries by their names alone, in the direction asked for. -/
def byNames (sort : Sorting) (a b : Entry) : Ordering :=
  if sort.reverse then (natural a.name b.name).swap else natural a.name b.name

/-- Entries by their sizes, unknown ones last, in the direction asked for. -/
def bySizes (sort : Sorting) (a b : Entry) : Ordering :=
  (known a.size.isSome b.size.isSome).then
    (if sort.reverse then ((compare a.size b.size).then (natural a.name b.name)).swap
      else (compare a.size b.size).then (natural a.name b.name))

/-- Something stands by size between two folders, against the order of their names. -/
def Crossed (entries : List Entry) (sort : Sorting) : Prop :=
  ∃ upper ∈ entries, ∃ under ∈ entries, ∃ between ∈ entries,
    upper.isDir ∧ under.isDir ∧ ¬ between.isDir ∧ byNames sort upper under = .lt ∧
      bySizes sort under between = .lt ∧ bySizes sort between upper = .lt

theorem transCmp_natural : Std.TransCmp fun a b : Entry => natural a.name b.name :=
  transCmp_comp Entry.name inferInstance

theorem transCmp_byNames (sort : Sorting) : Std.TransCmp (byNames sort) :=
  transCmp_directed sort.reverse transCmp_natural

theorem transCmp_known {view : Entry → Bool} :
    Std.TransCmp fun a b : Entry => known (view a) (view b) :=
  transCmp_comp view (Std.TransCmp.opposite : Std.TransCmp fun a b : Bool => compare b a)

theorem transCmp_bySizes (sort : Sorting) : Std.TransCmp (bySizes sort) := by
  have sized : Std.TransCmp fun a b : Entry => compare a.size b.size :=
    transCmp_comp Entry.size inferInstance
  exact transCmp_then transCmp_known
    (transCmp_directed sort.reverse (transCmp_then sized transCmp_natural))

theorem transCmp_group (dirsFirst : Bool) :
    Std.TransCmp fun a b : Entry => if dirsFirst then compare b.isDir a.isDir else .eq := by
  cases dirsFirst with
  | true => exact @transCmp_known Entry.isDir
  | false => exact transCmp_eq

theorem transCmp_keyed {lower : Name → String} {sort : Sorting} (unsized : sort.key ≠ .size) :
    Std.TransCmp (compareBy lower sort) := by
  obtain ⟨key, reverse, dirsFirst⟩ := sort
  have grouped := transCmp_group dirsFirst
  cases key with
  | name =>
    exact transCmp_then (transCmp_then grouped transCmp_eq)
      (transCmp_directed reverse (transCmp_then transCmp_eq transCmp_natural))
  | size => exact absurd rfl unsized
  | modified =>
    have dated : Std.TransCmp fun a b : Entry => compare a.mtimeNs b.mtimeNs :=
      transCmp_comp Entry.mtimeNs inferInstance
    exact transCmp_then (transCmp_then grouped transCmp_known)
      (transCmp_directed reverse (transCmp_then dated transCmp_natural))
  | type =>
    have labelled : Std.TransCmp fun a b : Entry =>
        compare (a.typeLabel lower) (b.typeLabel lower) :=
      transCmp_comp (fun entry : Entry => entry.typeLabel lower) inferInstance
    exact transCmp_then (transCmp_then grouped transCmp_eq)
      (transCmp_directed reverse (transCmp_then labelled transCmp_natural))

theorem compareBy_size {lower : Name → String} {sort : Sorting} (sized : sort.key = .size)
    (a b : Entry) :
    compareBy lower sort a b =
      (if sort.dirsFirst then compare b.isDir a.isDir else .eq).then
        (if a.isDir ∧ b.isDir then byNames sort a b else bySizes sort a b) := by
  unfold compareBy byNames bySizes
  simp only [sized]
  by_cases folders : a.isDir = true ∧ b.isDir = true
  · rw [if_pos folders, if_pos folders]
    simp
  · rw [if_neg folders, if_neg folders]
    simp [Ordering.then_assoc]

/-- An entry without what its comparison by size leaves out. -/
def shorn (entry : Entry) : Entry := if entry.isDir then { entry with size := none } else entry

theorem shorn_isDir (entry : Entry) : (shorn entry).isDir = entry.isDir := by
  unfold shorn
  split <;> rfl

theorem shorn_of_dir {entry : Entry} (folder : entry.isDir = true) :
    shorn entry = { entry with size := none } := if_pos folder

theorem shorn_of_other {entry : Entry} (other : ¬ entry.isDir = true) : shorn entry = entry :=
  if_neg other

theorem transCmp_grouped {lower : Name → String} {sort : Sorting} (sized : sort.key = .size)
    (grouped : sort.dirsFirst = true) : Std.TransCmp (compareBy lower sort) := by
  have same : compareBy lower sort = fun a b =>
      (compare b.isDir a.isDir).then (bySizes sort (shorn a) (shorn b)) := by
    funext a b
    rw [compareBy_size sized, if_pos grouped]
    by_cases left : a.isDir = true
    · by_cases right : b.isDir = true
      · rw [if_pos ⟨left, right⟩, shorn_of_dir left, shorn_of_dir right]
        simp [bySizes, byNames, known]
      · rw [left, Bool.eq_false_of_not_eq_true right]
        rfl
    · by_cases right : b.isDir = true
      · rw [right, Bool.eq_false_of_not_eq_true left]
        rfl
      · rw [if_neg fun both => left both.1, shorn_of_other left, shorn_of_other right]
  rw [same]
  exact transCmp_then (@transCmp_known Entry.isDir)
    (transCmp_comp shorn (transCmp_bySizes sort))

theorem byNames_apart {sort : Sorting} {a b : Entry} (same : byNames sort a b = .eq) :
    a.name = b.name := by
  unfold byNames at same
  split at same
  · exact Std.LawfulEqCmp.eq_of_compare (Ordering.swap_eq_eq.mp same)
  · exact Std.LawfulEqCmp.eq_of_compare same

theorem bySizes_apart {sort : Sorting} {a b : Entry} (same : bySizes sort a b = .eq) :
    a.name = b.name := by
  have keyed := (Ordering.then_eq_eq.mp same).2
  split at keyed
  · exact Std.LawfulEqCmp.eq_of_compare (Ordering.then_eq_eq.mp (Ordering.swap_eq_eq.mp keyed)).2
  · exact Std.LawfulEqCmp.eq_of_compare (Ordering.then_eq_eq.mp keyed).2

theorem compareBy_apart {lower : Name → String} {sort : Sorting} {a b : Entry}
    (same : compareBy lower sort a b = .eq) : a.name = b.name := by
  have keyed := (Ordering.then_eq_eq.mp same).2
  split at keyed
  · exact Std.LawfulEqCmp.eq_of_compare (Ordering.then_eq_eq.mp (Ordering.swap_eq_eq.mp keyed)).2
  · exact Std.LawfulEqCmp.eq_of_compare (Ordering.then_eq_eq.mp keyed).2

theorem entry_eq_of_name {entries : List Entry} (distinct : (entries.map (·.name)).Nodup)
    {a b : Entry} (left : a ∈ entries) (right : b ∈ entries) (same : a.name = b.name) : a = b :=
  List.inj_on_of_nodup_map distinct left right same

/-! ## Folders among the others -/

section Mixed

variable {lower : Name → String} {sort : Sorting} {entries : List Entry}

theorem compareBy_folders (sized : sort.key = .size) (mixed : ¬ sort.dirsFirst = true)
    {a b : Entry} (left : a.isDir = true) (right : b.isDir = true) :
    compareBy lower sort a b = byNames sort a b := by
  rw [compareBy_size sized, if_neg mixed, if_pos ⟨left, right⟩, Ordering.eq_then]

theorem compareBy_other (sized : sort.key = .size) (mixed : ¬ sort.dirsFirst = true)
    {a b : Entry} (other : ¬ (a.isDir = true ∧ b.isDir = true)) :
    compareBy lower sort a b = bySizes sort a b := by
  rw [compareBy_size sized, if_neg mixed, if_neg other, Ordering.eq_then]

theorem compareBy_swap (sized : sort.key = .size) (mixed : ¬ sort.dirsFirst = true)
    (a b : Entry) : compareBy lower sort b a = (compareBy lower sort a b).swap := by
  by_cases folders : a.isDir = true ∧ b.isDir = true
  · rw [compareBy_folders sized mixed folders.1 folders.2,
      compareBy_folders sized mixed folders.2 folders.1]
    exact (transCmp_byNames sort).eq_swap
  · rw [compareBy_other sized mixed folders,
      compareBy_other sized mixed fun both => folders both.symm]
    exact (transCmp_bySizes sort).eq_swap

theorem bySizes_or {a b : Entry} (different : a.name ≠ b.name) :
    bySizes sort a b = .lt ∨ bySizes sort b a = .lt := by
  have order := transCmp_bySizes sort
  cases compared : bySizes sort a b with
  | lt => exact .inl rfl
  | eq => exact absurd (bySizes_apart compared) different
  | gt =>
    refine .inr ?_
    rw [order.eq_swap, compared]
    rfl

theorem byNames_or {a b : Entry} (different : a.name ≠ b.name) :
    byNames sort a b = .lt ∨ byNames sort b a = .lt := by
  have order := transCmp_byNames sort
  cases compared : byNames sort a b with
  | lt => exact .inl rfl
  | eq => exact absurd (byNames_apart compared) different
  | gt =>
    refine .inr ?_
    rw [order.eq_swap, compared]
    rfl

theorem name_ne_of_kind (distinct : (entries.map (·.name)).Nodup) {a b : Entry}
    (left : a ∈ entries) (right : b ∈ entries) (folder : a.isDir = true)
    (other : ¬ b.isDir = true) : a.name ≠ b.name := by
  intro same
  exact other (entry_eq_of_name distinct left right same ▸ folder)

/-- Where nothing crosses, what two comparisons in a row say holds of the third pair. With
two folders of three, the folders' names and the sizes would cross otherwise. -/
theorem compareBy_trans (sized : sort.key = .size) (mixed : ¬ sort.dirsFirst = true)
    (distinct : (entries.map (·.name)).Nodup) (straight : ¬ Crossed entries sort)
    {a b c : Entry} (first : a ∈ entries) (second : b ∈ entries) (third : c ∈ entries)
    (upper : compareBy lower sort a b = .lt) (under : compareBy lower sort b c = .lt) :
    compareBy lower sort a c = .lt := by
  have names := transCmp_byNames sort
  have sizes := transCmp_bySizes sort
  by_cases dirA : a.isDir = true
  · by_cases dirB : b.isDir = true
    · rw [compareBy_folders sized mixed dirA dirB] at upper
      by_cases dirC : c.isDir = true
      · rw [compareBy_folders sized mixed dirB dirC] at under
        rw [compareBy_folders sized mixed dirA dirC]
        exact Std.TransCmp.lt_trans upper under
      · rw [compareBy_other sized mixed fun both => dirC both.2] at under
        rw [compareBy_other sized mixed fun both => dirC both.2]
        refine (bySizes_or (name_ne_of_kind distinct first third dirA dirC)).resolve_right ?_
        intro back
        exact straight ⟨a, first, b, second, c, third, dirA, dirB, dirC, upper, under, back⟩
    · rw [compareBy_other sized mixed fun both => dirB both.2] at upper
      rw [compareBy_other sized mixed fun both => dirB both.1] at under
      have onward : bySizes sort a c = .lt := Std.TransCmp.lt_trans upper under
      by_cases dirC : c.isDir = true
      · rw [compareBy_folders sized mixed dirA dirC]
        have different : a.name ≠ c.name := by
          intro same
          rw [entry_eq_of_name distinct first third same] at onward
          rw [(Std.ReflCmp.compare_self : bySizes sort c c = .eq)] at onward
          cases onward
        refine (byNames_or different).resolve_right ?_
        intro back
        exact straight ⟨c, third, a, first, b, second, dirC, dirA, dirB, back, upper, under⟩
      · rw [compareBy_other sized mixed fun both => dirC both.2]
        exact onward
  · rw [compareBy_other sized mixed fun both => dirA both.1] at upper
    rw [compareBy_other sized mixed fun both => dirA both.1]
    by_cases folders : b.isDir = true ∧ c.isDir = true
    · obtain ⟨dirB, dirC⟩ := folders
      rw [compareBy_folders sized mixed dirB dirC] at under
      have different : a.name ≠ c.name :=
        (name_ne_of_kind distinct third first dirC dirA).symm
      refine (bySizes_or different).resolve_right ?_
      intro back
      exact straight ⟨b, second, c, third, a, first, dirB, dirC, dirA, under, back, upper⟩
    · rw [compareBy_other sized mixed folders] at under
      exact Std.TransCmp.lt_trans upper under

theorem not_ordersTotally (sized : sort.key = .size) (mixed : ¬ sort.dirsFirst = true)
    (crossed : Crossed entries sort) : ¬ OrdersTotally (compareBy lower sort) entries := by
  intro order
  obtain ⟨upper, first, under, second, between, third, dirUpper, dirUnder, other, named, after,
    before⟩ := crossed
  rw [← @compareBy_folders lower _ sized mixed _ _ dirUpper dirUnder] at named
  rw [← @compareBy_other lower _ sized mixed _ _ fun both => other both.2] at after
  rw [← @compareBy_other lower _ sized mixed _ _ fun both => other both.1] at before
  have round := order.transitive upper first between third upper first
    (order.transitive upper first under second between third named after) before
  exact order.irreflexive upper first round

theorem ordersTotally_mixed (sized : sort.key = .size) (mixed : ¬ sort.dirsFirst = true)
    (distinct : (entries.map (·.name)).Nodup) (straight : ¬ Crossed entries sort) :
    OrdersTotally (compareBy lower sort) entries where
  irreflexive := by
    intro a member less
    have swapped := @compareBy_swap lower _ sized mixed a a
    rw [less] at swapped
    cases swapped
  antisymmetric := fun a _ b _ => compareBy_swap sized mixed a b
  transitive := fun _ first _ second _ third =>
    compareBy_trans sized mixed distinct straight first second third
  total := fun a left b right different same =>
    different (entry_eq_of_name distinct left right (compareBy_apart same))

end Mixed

theorem ordersTotally_iff {lower : Name → String} {sort : Sorting} {entries : List Entry}
    (distinct : (entries.map (·.name)).Nodup) :
    OrdersTotally (compareBy lower sort) entries ↔
      (sort.key = .size → ¬ sort.dirsFirst = true → ¬ Crossed entries sort) := by
  constructor
  · intro order sized mixed crossed
    exact not_ordersTotally sized mixed crossed order
  · intro straight
    have apart : ∀ a ∈ entries, ∀ b ∈ entries, compareBy lower sort a b = .eq → a = b :=
      fun a left b right same => entry_eq_of_name distinct left right (compareBy_apart same)
    by_cases sized : sort.key = .size
    · by_cases grouped : sort.dirsFirst = true
      · have order := @transCmp_grouped lower _ sized grouped
        exact OrdersTotally.of_cmp apart
      · exact ordersTotally_mixed sized grouped distinct (straight sized grouped)
    · have order := @transCmp_keyed lower _ sized
      exact OrdersTotally.of_cmp apart

/-! ## The display order -/

section Display

variable {lower : Name → String} {sort : Sorting} {entries : List Entry}

theorem orderBy_length :
    (orderBy lower entries sort).length = entries.length % 2 ^ 32 := by
  simp only [orderBy, List.length_map, List.length_insertionSort, List.length_take,
    List.length_zipIdx]
  exact Nat.min_eq_left (Nat.mod_le _ _)

theorem orderBy_perm_iff :
    (orderBy lower entries sort).Perm (List.range entries.length) ↔ entries.length < 2 ^ 32 := by
  constructor
  · intro perm
    have lengths := perm.length_eq
    rw [orderBy_length, List.length_range] at lengths
    rw [← lengths]
    exact Nat.mod_lt _ (by norm_num)
  · intro short
    have whole : entries.zipIdx.take (entries.length % 2 ^ 32) = entries.zipIdx := by
      rw [Nat.mod_eq_of_lt short]
      exact List.take_of_length_le (by simp)
    unfold orderBy
    rw [whole]
    refine (List.Perm.map _ (List.perm_insertionSort _ _)).trans ?_
    rw [List.zipIdx_map_snd]
    simp [List.range_eq_range']

theorem compareBy_ne_gt (order : OrdersTotally (compareBy lower sort) entries) {a b : Entry}
    (left : a ∈ entries) (right : b ∈ entries) :
    compareBy lower sort a b ≠ .gt ↔ a = b ∨ compareBy lower sort a b = .lt := by
  constructor
  · intro least
    by_cases same : a = b
    · exact .inl same
    · have apart := order.total a left b right same
      refine .inr ?_
      cases compared : compareBy lower sort a b with
      | lt => rfl
      | eq => exact absurd compared apart
      | gt => exact absurd compared least
  · rintro (rfl | less) more
    · have swapped := order.antisymmetric a left a left
      rw [more] at swapped
      cases swapped
    · rw [less] at more
      cases more

theorem getElem?_of_placed {placed : Entry × Nat} {count : Nat}
    (member : placed ∈ entries.zipIdx.take count) : entries[placed.2]? = some placed.1 :=
  List.mem_zipIdx_iff_getElem?.mp (List.mem_of_mem_take member)

theorem ascending_of_total (order : OrdersTotally (compareBy lower sort) entries)
    (distinct : (entries.map (·.name)).Nodup) :
    Shown lower entries sort fun a b => compareBy lower sort a b = .lt := by
  have known : ∀ placed ∈ entries.zipIdx.take (entries.length % 2 ^ 32), placed.1 ∈ entries :=
    fun placed member => List.mem_of_getElem? (getElem?_of_placed member)
  have sorted : ((entries.zipIdx.take (entries.length % 2 ^ 32)).insertionSort fun a b =>
      compareBy lower sort a.1 b.1 ≠ .gt).Pairwise
        fun a b => compareBy lower sort a.1 b.1 ≠ .gt := by
    apply pairwise_insertionSort_of_mem
    · intro a left b right
      rw [order.antisymmetric a.1 (known a left) b.1 (known b right)]
      cases compareBy lower sort a.1 b.1 <;> simp
    · intro a first b second c third upper under
      rw [compareBy_ne_gt order (known a first) (known b second)] at upper
      rw [compareBy_ne_gt order (known b second) (known c third)] at under
      rw [compareBy_ne_gt order (known a first) (known c third)]
      rcases upper with same | upper
      · rw [same]
        exact under
      · rcases under with same | under
        · rw [← same]
          exact .inr upper
        · exact .inr (order.transitive a.1 (known a first) b.1 (known b second) c.1
            (known c third) upper under)
  have apart : ((entries.zipIdx.take (entries.length % 2 ^ 32)).insertionSort fun a b =>
      compareBy lower sort a.1 b.1 ≠ .gt).Pairwise fun a b => a.2 ≠ b.2 := by
    rw [← List.pairwise_map (f := Prod.snd) (R := fun i j : Nat => i ≠ j)]
    have nodup : ((entries.zipIdx.take (entries.length % 2 ^ 32)).map Prod.snd).Nodup := by
      refine List.Nodup.sublist ((List.take_sublist _ _).map _) ?_
      rw [List.zipIdx_map_snd]
      exact List.nodup_range'
    exact ((List.perm_insertionSort _ _).map Prod.snd).nodup_iff.mpr nodup
  unfold Shown orderBy
  rw [List.pairwise_map]
  refine (sorted.and apart).imp_of_mem ?_
  intro a b left right facts x isX y isY
  have placedA := getElem?_of_placed ((List.mem_insertionSort _).mp left)
  have placedB := getElem?_of_placed ((List.mem_insertionSort _).mp right)
  obtain rfl : a.1 = x := Option.some.inj (placedA.symm.trans isX)
  obtain rfl : b.1 = y := Option.some.inj (placedB.symm.trans isY)
  refine ((compareBy_ne_gt order (List.mem_of_getElem? placedA)
    (List.mem_of_getElem? placedB)).mp facts.1).resolve_left ?_
  intro same
  rw [← same] at placedB
  have bound := (List.getElem?_eq_some_iff.mp placedA).1
  exact facts.2 ((List.getElem?_inj bound (List.Nodup.of_map _ distinct)).mp
    (placedA.trans placedB.symm))

theorem folders_first (grouped : sort.dirsFirst = true) {a b : Entry}
    (less : compareBy lower sort a b = .lt) (folder : b.isDir = true) : a.isDir = true := by
  by_contra other
  have behind : compare b.isDir a.isDir = .gt := by
    rw [folder, Bool.eq_false_of_not_eq_true other]
    rfl
  unfold compareBy at less
  rw [if_pos grouped, behind] at less
  cases less

theorem unread_last {a b : Entry} (less : compareBy lower sort a b = .lt)
    (group : sort.dirsFirst = true → a.isDir = b.isDir)
    (other : ¬ (sort.key = .size ∧ a.isDir = true ∧ b.isDir = true))
    (owed : unread sort a = true) : unread sort b = true := by
  by_contra read
  have together : (if sort.dirsFirst then compare b.isDir a.isDir else .eq) = Ordering.eq := by
    split
    · rename_i grouped
      rw [group grouped]
      simp
    · rfl
  unfold compareBy at less
  rw [together] at less
  cases key : sort.key with
  | name => simp [unread, key] at owed
  | type => simp [unread, key] at owed
  | size =>
    simp only [unread, key] at owed read
    simp only [key] at less
    rw [if_neg fun both => other ⟨key, both⟩, Option.isNone_iff_eq_none.mp owed] at less
    rw [Option.isNone_iff_eq_none, ← ne_eq, Option.ne_none_iff_isSome] at read
    rw [read] at less
    cases less
  | modified =>
    simp only [unread, key] at owed read
    simp only [key] at less
    rw [Option.isNone_iff_eq_none.mp owed] at less
    rw [Option.isNone_iff_eq_none, ← ne_eq, Option.ne_none_iff_isSome] at read
    rw [read] at less
    cases less

theorem Shown.imp {keeps weaker : Entry → Entry → Prop} (shown : Shown lower entries sort keeps)
    (follows : ∀ a b, keeps a b → weaker a b) : Shown lower entries sort weaker :=
  List.Pairwise.imp (fun held a isA b isB => follows a b (held a isA b isB)) shown

end Display

/-- The names' order is total, and so is that of a listing's entries, except where something
stands by size between two folders and their names go the other way. -/
theorem listing_sorted (lower : Name → String) (entries : List Entry) (sort : Sorting)
    (distinct : (entries.map (·.name)).Nodup) :
    (Sorts lower entries sort ↔
      entries.length < 2 ^ 32 ∧
        (sort.key = .size → ¬ sort.dirsFirst = true → ¬ Crossed entries sort)) ∧
    (∀ names : List Name, OrdersTotally natural names) ∧
    ∀ a b : Name, natural a b = (compare (nameKeys a) (nameKeys b)).then (compare a b) := by
  refine ⟨⟨?_, ?_⟩, ?_, natural_eq⟩
  · intro sorts
    exact ⟨orderBy_perm_iff.mp sorts.permutation, (ordersTotally_iff distinct).mp sorts.comparison⟩
  · rintro ⟨short, straight⟩
    have order := (@ordersTotally_iff lower _ _ distinct).mpr straight
    have ascending := ascending_of_total order distinct
    exact
      { comparison := order
        permutation := orderBy_perm_iff.mpr short
        ascending
        folders := fun grouped => ascending.imp fun a b less => folders_first grouped less
        unknown := ascending.imp fun a b less => unread_last less }
  · intro names
    exact OrdersTotally.of_cmp fun a _ b _ => Std.LawfulEqCmp.eq_of_compare

/-- The folder `a` of a hundred bytes, the folder `b` of one and the file `m` of fifty. -/
def crossedEntries : List Entry :=
  [{ name := [97], kind := .dir, size := some 100 },
    { name := [98], kind := .dir, size := some 1 },
    { name := [109], kind := .file, size := some 50 }]

theorem listing_sorted_plain :
    (Sorts (fun _ => "") crossedEntries {} ↔
      crossedEntries.length < 2 ^ 32 ∧
        (SortKey.name = .size → ¬ true = true → ¬ Crossed crossedEntries {})) ∧
    (∀ names : List Name, OrdersTotally natural names) ∧
    ∀ a b : Name, natural a b = (compare (nameKeys a) (nameKeys b)).then (compare a b) :=
  listing_sorted (fun _ => "") crossedEntries {} (by decide)

theorem mixed_sizes_crossed :
    (crossedEntries.map (·.name)).Nodup ∧
      ¬ Sorts (fun _ => "") crossedEntries { key := .size, dirsFirst := false } := by
  constructor
  · decide
  · intro sorts
    refine not_ordersTotally rfl (by simp) ?_ sorts.comparison
    exact ⟨_, List.mem_cons_self, _, List.mem_cons_of_mem _ List.mem_cons_self, _,
      List.mem_cons_of_mem _ (List.mem_cons_of_mem _ List.mem_cons_self), rfl, rfl, by decide,
      by decide, by decide, by decide⟩

end EclipseOS.Fog.Views

