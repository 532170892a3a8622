import Mathlib.Data.List.Sort
import EclipseOS.Foundation.Compaction
import EclipseOS.Foundation.Fallible

/-! # Output layout

Where outputs stand on the desktop: rectangles of 32-bit coordinates, moved to the origin and
together until no gap is left. -/

namespace EclipseOS.Abyss.OutputLayout

open Foundation (Compaction.Span Compaction.compact Compaction.extent)

inductive Axis where
  | x
  | y
  deriving DecidableEq

structure LayoutRect where
  x : Int32
  y : Int32
  w : Int32
  h : Int32
  deriving DecidableEq

namespace LayoutRect

def place (r : LayoutRect) : Axis → Int32
  | .x => r.x
  | .y => r.y

def size (r : LayoutRect) : Axis → Int32
  | .x => r.w
  | .y => r.h

def put (r : LayoutRect) (place : Int32) : Axis → LayoutRect
  | .x => { r with x := place }
  | .y => { r with y := place }

end LayoutRect

def lowest (axis : Axis) (r : LayoutRect) (rects : List LayoutRect) : Int32 :=
  rects.foldl (fun low s => if s.place axis < low then s.place axis else low) (r.place axis)

/-- The machine's difference. Where overflow is checked, one that does not fit stops the
program. -/
def sub (checked : Bool) (a b : Int32) : Option Int32 :=
  if checked = true ∧ (a - b).toInt ≠ a.toInt - b.toInt then none else some (a - b)

def add (checked : Bool) (a b : Int32) : Option Int32 :=
  if checked = true ∧ (a + b).toInt ≠ a.toInt + b.toInt then none else some (a + b)

/-- Where each rectangle goes on an axis, lowest first, with its position in the list.
`shift` has been closed so far, and what is passed reaches to `reach`. -/
def sweep (checked : Bool) (axis : Axis) :
    Int32 → Int32 → List (LayoutRect × Nat) → Option (List (Nat × Int32))
  | _, _, [] => some []
  | shift, reach, (r, i) :: rest => do
    let moved ← sub checked (r.place axis) shift
    let gap ← (if reach < moved then sub checked moved reach else some 0)
    let next ← sub checked moved gap
    let closed ← add checked shift gap
    let far ← add checked next (r.size axis)
    let later ← sweep checked axis closed (if reach < far then far else reach) rest
    some ((i, next) :: later)

/-- Rectangles with their positions in the list, lowest first. -/
def ordered (axis : Axis) (entries : List (LayoutRect × Nat)) : List (LayoutRect × Nat) :=
  entries.insertionSort fun a b => a.1.place axis ≤ b.1.place axis

/-- One axis starts at the origin and has no gap. -/
def normalizeAxis (checked : Bool) (axis : Axis) : List LayoutRect → Option (List LayoutRect)
  | [] => some []
  | r :: rects => do
    let low := lowest axis r rects
    let moved ← (r :: rects).mapM fun s => (sub checked (s.place axis) low).map (s.put · axis)
    let placed ← sweep checked axis 0 0 (ordered axis moved.zipIdx)
    some (moved.zipIdx.map fun e => e.1.put ((placed.lookup e.2).getD (e.1.place axis)) axis)

/-- A layout starts at the origin and leaves no gap. -/
def normalizeLayout (checked : Bool) (rects : List LayoutRect) : Option (List LayoutRect) := do
  normalizeAxis checked .y (← normalizeAxis checked .x rects)

/-- Whether two outputs overlap in logical space. -/
def clashes (checked : Bool) (a b : LayoutRect) : Option Bool := do
  if a.x < (← add checked b.x b.w) then
    if b.x < (← add checked a.x a.w) then
      if a.y < (← add checked b.y b.h) then
        some (b.y < (← add checked a.y a.h))
      else some false
    else some false
  else some false

def anyClash (checked : Bool) (a : LayoutRect) : List LayoutRect → Option Bool
  | [] => some false
  | b :: rest => do
    if (← clashes checked a b) then some true else anyClash checked a rest

/-- Whether any two outputs overlap in logical space. -/
def layoutOverlaps (checked : Bool) : List LayoutRect → Option Bool
  | [] => some false
  | a :: rest => do
    if (← anyClash checked a rest) then some true else layoutOverlaps checked rest

/-! ## Machine integers -/

theorem toInt_bounds (a : Int32) : -2147483648 ≤ a.toInt ∧ a.toInt < 2147483648 :=
  ⟨a.le_toInt, a.toInt_lt⟩

theorem sub_some {checked : Bool} {a b : Int32} (low : -2147483648 ≤ a.toInt - b.toInt)
    (high : a.toInt - b.toInt < 2147483648) :
    ∃ c, sub checked a b = some c ∧ c.toInt = a.toInt - b.toInt := by
  have exact : (a - b).toInt = a.toInt - b.toInt := by
    rw [Int32.toInt_sub]
    exact Int.bmod_eq_of_le (by simpa using low) (by simpa using high)
  refine ⟨a - b, if_neg ?_, exact⟩
  exact fun overflow => overflow.2 exact

theorem toInt_of_sub {a b c : Int32} (made : sub true a b = some c) :
    c.toInt = a.toInt - b.toInt := by
  rw [sub] at made
  split_ifs at made with overflow
  rw [← Option.some.inj made]
  by_contra different
  exact overflow ⟨rfl, different⟩

theorem add_some {checked : Bool} {a b : Int32} (low : -2147483648 ≤ a.toInt + b.toInt)
    (high : a.toInt + b.toInt < 2147483648) :
    ∃ c, add checked a b = some c ∧ c.toInt = a.toInt + b.toInt := by
  have exact : (a + b).toInt = a.toInt + b.toInt := by
    rw [Int32.toInt_add]
    exact Int.bmod_eq_of_le (by simpa using low) (by simpa using high)
  refine ⟨a + b, if_neg ?_, exact⟩
  exact fun overflow => overflow.2 exact

theorem toInt_of_add {a b c : Int32} (made : add true a b = some c) :
    c.toInt = a.toInt + b.toInt := by
  rw [add] at made
  split_ifs at made with overflow
  rw [← Option.some.inj made]
  by_contra different
  exact overflow ⟨rfl, different⟩

theorem toInt_max {a b : Int32} :
    (if a < b then b else a).toInt = max a.toInt b.toInt := by
  split_ifs with less <;> rw [Int32.lt_iff_toInt_lt] at less <;> omega

/-! ## What a sweep does -/

def span (axis : Axis) (r : LayoutRect) : Compaction.Span :=
  ((r.place axis).toInt, (r.size axis).toInt)

/-- As long as no end is past what 32 bits hold, the sweep is the one of whole numbers. -/
theorem sweep_some {checked : Bool} {axis : Axis} {shift reach : Int32}
    {entries : List (LayoutRect × Nat)}
    (shifted : 0 ≤ shift.toInt) (reached : 0 ≤ reach.toInt)
    (places : ∀ e ∈ entries, 0 ≤ (e.1.place axis).toInt)
    (sizes : ∀ e ∈ entries, 0 ≤ (e.1.size axis).toInt)
    (ends : ∀ p ∈ (Foundation.Compaction.sweep shift.toInt reach.toInt
      (entries.map fun e => span axis e.1)).zip (entries.map fun e => span axis e.1),
      p.1 + p.2.2 < 2147483648) :
    ∃ placed, sweep checked axis shift reach entries = some placed ∧
      placed.map (fun p => (p.1, p.2.toInt)) =
        (entries.map (·.2)).zip (Foundation.Compaction.sweep shift.toInt reach.toInt
          (entries.map fun e => span axis e.1)) := by
  induction entries generalizing shift reach with
  | nil => exact ⟨[], rfl, rfl⟩
  | cons e rest induction =>
    rcases e with ⟨r, i⟩
    have place : 0 ≤ (r.place axis).toInt := places _ List.mem_cons_self
    have size : 0 ≤ (r.size axis).toInt := sizes _ List.mem_cons_self
    have placeBound := toInt_bounds (r.place axis)
    have shiftBound := toInt_bounds shift
    have reachBound := toInt_bounds reach
    simp only [List.map_cons, Foundation.Compaction.sweep, List.zip_cons_cons, span] at ends ⊢
    rcases @sub_some checked (r.place axis) shift (by omega) (by omega) with
        ⟨moved, isMoved, movedInt⟩
    rw [← movedInt] at ends ⊢
    have gapSome : ∃ gap, (if reach < moved then sub checked moved reach else some 0) =
        some gap ∧ gap.toInt =
          if reach.toInt < moved.toInt then moved.toInt - reach.toInt else 0 := by
      by_cases past : reach < moved
      · rw [if_pos past]
        rw [Int32.lt_iff_toInt_lt] at past
        rw [if_pos past]
        exact sub_some (by omega) (by omega)
      · rw [if_neg past]
        rw [Int32.lt_iff_toInt_lt] at past
        rw [if_neg past]
        exact ⟨0, rfl, rfl⟩
    rcases gapSome with ⟨gap, isGap, gapInt⟩
    simp only [gt_iff_lt, ← gapInt] at ends ⊢
    have gapBound : 0 ≤ gap.toInt ∧ gap.toInt ≤ (r.place axis).toInt - shift.toInt ∨
        gap.toInt = 0 := by
      split_ifs at gapInt <;> omega
    rcases @sub_some checked moved gap (by omega) (by omega) with
      ⟨next, isNext, nextInt⟩
    rcases @add_some checked shift gap (by omega) (by omega) with
      ⟨closed, isClosed, closedInt⟩
    rw [← nextInt, ← closedInt] at ends ⊢
    have fits := ends _ List.mem_cons_self
    dsimp only at fits
    have nextBound := toInt_bounds next
    rcases @add_some checked next (r.size axis) (by omega) fits with
      ⟨far, isFar, farInt⟩
    rw [← farInt, ← toInt_max] at ends ⊢
    rcases @induction closed (if reach < far then far else reach)
        (by split_ifs at gapInt <;> omega) (by rw [toInt_max]; omega)
        (fun e member => places e (List.mem_cons_of_mem _ member))
        (fun e member => sizes e (List.mem_cons_of_mem _ member))
        (fun p member => ends p (List.mem_cons_of_mem _ member)) with ⟨later, isLater, laterInt⟩
    refine ⟨(i, next) :: later, ?_, ?_⟩
    · simp only [sweep, isMoved, isGap, isNext, isClosed, isFar, isLater, Option.bind_eq_bind,
        Option.bind_some]
    · rw [List.map_cons, laterInt]
      rfl

/-- Where overflow is checked, a sweep that comes to its end has met no end past 32 bits. -/
theorem ends_of_sweep {axis : Axis} {shift reach : Int32} {entries : List (LayoutRect × Nat)}
    {placed : List (Nat × Int32)} (swept : sweep true axis shift reach entries = some placed) :
    ∀ p ∈ (Foundation.Compaction.sweep shift.toInt reach.toInt
      (entries.map fun e => span axis e.1)).zip (entries.map fun e => span axis e.1),
      p.1 + p.2.2 < 2147483648 := by
  induction entries generalizing shift reach placed with
  | nil =>
    intro p member
    cases member
  | cons e rest induction =>
    rcases e with ⟨r, i⟩
    simp only [sweep, Option.bind_eq_bind, Option.bind_eq_some_iff] at swept
    rcases swept with ⟨moved, isMoved, gap, isGap, next, isNext, closed, isClosed, far, isFar,
      later, isLater, -⟩
    have gapInt : gap.toInt =
        if reach.toInt < moved.toInt then moved.toInt - reach.toInt else 0 := by
      by_cases past : reach < moved
      · rw [if_pos past] at isGap
        rw [Int32.lt_iff_toInt_lt] at past
        rw [if_pos past]
        exact toInt_of_sub isGap
      · rw [if_neg past] at isGap
        rw [Int32.lt_iff_toInt_lt] at past
        rw [if_neg past, ← Option.some.inj isGap]
        rfl
    have tail := induction isLater
    rw [toInt_max, toInt_of_add isFar, toInt_of_add isClosed, toInt_of_sub isNext, gapInt,
      toInt_of_sub isMoved] at tail
    intro p member
    rw [List.map_cons, span, Foundation.Compaction.sweep, List.zip_cons_cons] at member
    rcases List.mem_cons.mp member with rfl | later
    · have bound := toInt_bounds far
      rw [toInt_of_add isFar, toInt_of_sub isNext, gapInt, toInt_of_sub isMoved] at bound
      exact bound.2
    · exact tail p later

/-! ## Where an axis goes -/

theorem lowest_le {axis : Axis} {r : LayoutRect} {rects : List LayoutRect} :
    ∀ s ∈ r :: rects, (lowest axis r rects).toInt ≤ (s.place axis).toInt := by
  unfold lowest
  suffices bound : ∀ low : Int32,
      (rects.foldl (fun low s => if s.place axis < low then s.place axis else low) low).toInt ≤
        low.toInt ∧
      ∀ s ∈ rects, (rects.foldl (fun low s => if s.place axis < low then s.place axis else low)
        low).toInt ≤ (s.place axis).toInt by
    intro s member
    rcases List.mem_cons.mp member with rfl | later
    · exact (bound _).1
    · exact (bound _).2 s later
  induction rects with
  | nil => exact fun low => ⟨le_refl _, fun s member => by cases member⟩
  | cons s rects induction =>
    intro low
    have tail := induction (if s.place axis < low then s.place axis else low)
    have lower : (if s.place axis < low then s.place axis else low).toInt ≤ low.toInt ∧
        (if s.place axis < low then s.place axis else low).toInt ≤ (s.place axis).toInt := by
      split_ifs with less <;> rw [Int32.lt_iff_toInt_lt] at less <;> omega
    rw [List.foldl_cons]
    refine ⟨tail.1.trans lower.1, fun t member => ?_⟩
    rcases List.mem_cons.mp member with rfl | later
    · exact tail.1.trans lower.2
    · exact tail.2 t later

theorem lowest_mem {axis : Axis} {r : LayoutRect} {rects : List LayoutRect} :
    ∃ s ∈ r :: rects, s.place axis = lowest axis r rects := by
  unfold lowest
  suffices found : ∀ low : Int32,
      rects.foldl (fun low s => if s.place axis < low then s.place axis else low) low = low ∨
      ∃ s ∈ rects, s.place axis =
        rects.foldl (fun low s => if s.place axis < low then s.place axis else low) low by
    rcases found (r.place axis) with same | ⟨s, member, same⟩
    · exact ⟨r, List.mem_cons_self, same.symm⟩
    · exact ⟨s, List.mem_cons_of_mem _ member, same⟩
  induction rects with
  | nil => exact fun low => .inl rfl
  | cons s rects induction =>
    intro low
    rw [List.foldl_cons]
    rcases induction (if s.place axis < low then s.place axis else low) with same | later
    · rw [same]
      split_ifs
      · exact .inr ⟨s, List.mem_cons_self, rfl⟩
      · exact .inl rfl
    · rcases later with ⟨t, member, same⟩
      exact .inr ⟨t, List.mem_cons_of_mem _ member, same⟩

/-- The lowest place on an axis, as a whole number. -/
def low (axis : Axis) : List LayoutRect → Int
  | [] => 0
  | r :: rects => (lowest axis r rects).toInt

/-- Places and sizes on an axis, from the lowest place. -/
def spans (axis : Axis) (rects : List LayoutRect) : List Compaction.Span :=
  rects.map fun r => ((r.place axis).toInt - low axis rects, (r.size axis).toInt)

/-- Where a rectangle of a layout goes on an axis. -/
def goes (axis : Axis) (rects : List LayoutRect) (r : LayoutRect) : Int :=
  Compaction.compact (spans axis rects) 0 ((r.place axis).toInt - low axis rects)

/-- The places of a layout spread no farther, and its outputs cover no more, than what 32
bits hold. -/
def Fits (axis : Axis) (rects : List LayoutRect) : Prop :=
  ∀ r ∈ rects, (r.place axis).toInt - low axis rects < 2147483648 ∧
    Compaction.extent (spans axis rects) 0
      ((r.place axis).toInt - low axis rects + (r.size axis).toInt) < 2147483648

def Sized (axis : Axis) (rects : List LayoutRect) : Prop :=
  ∀ r ∈ rects, 0 ≤ (r.size axis).toInt

variable {axis other : Axis} {rects : List LayoutRect} {r s : LayoutRect}

@[simp] theorem place_put (v : Int32) : (r.put v axis).place axis = v := by
  cases axis <;> rfl

@[simp] theorem size_put (v : Int32) : (r.put v axis).size other = r.size other := by
  cases axis <;> cases other <;> rfl

theorem place_put_of_ne (different : axis ≠ other) (v : Int32) :
    (r.put v axis).place other = r.place other := by
  cases axis <;> cases other <;> first | rfl | exact absurd rfl different

@[simp] theorem put_put (v w : Int32) : (r.put v axis).put w axis = r.put w axis := by
  cases axis <;> rfl

theorem low_le (member : r ∈ rects) : low axis rects ≤ (r.place axis).toInt := by
  cases rects with
  | nil => cases member
  | cons head rects => exact lowest_le r member

theorem low_mem (nonempty : rects ≠ []) :
    ∃ r ∈ rects, (r.place axis).toInt = low axis rects := by
  cases rects with
  | nil => exact absurd rfl nonempty
  | cons head rects =>
    rcases @lowest_mem axis head rects with ⟨s, member, same⟩
    exact ⟨s, member, congrArg Int32.toInt same⟩

theorem span_mem (member : r ∈ rects) :
    ((r.place axis).toInt - low axis rects, (r.size axis).toInt) ∈ spans axis rects :=
  List.mem_map_of_mem member

theorem spans_nonneg : ∀ t ∈ spans axis rects, 0 ≤ t.1 := by
  intro t member
  rcases List.mem_map.mp member with ⟨r, isRect, rfl⟩
  have := @low_le axis _ _ isRect
  dsimp only
  omega

theorem goes_end (sized : Sized axis rects) (member : r ∈ rects) :
    Compaction.compact (spans axis rects) 0
      ((r.place axis).toInt - low axis rects + (r.size axis).toInt) =
        goes axis rects r + (r.size axis).toInt := by
  have ends := @Foundation.Compaction.compact_end _ 0 _ (@span_mem axis _ _ member)
      (spans_nonneg _ (span_mem member)) (sized r member)
  exact ends

theorem goes_nonneg : 0 ≤ goes axis rects r := Foundation.Compaction.compact_nonneg

theorem goes_bound (sized : Sized axis rects) (fits : Fits axis rects) (member : r ∈ rects) :
    goes axis rects r + (r.size axis).toInt < 2147483648 := by
  rw [← goes_end sized member]
  exact (fits r member).2

theorem toInt_goes (sized : Sized axis rects) (fits : Fits axis rects) (member : r ∈ rects) :
    (Int32.ofInt (goes axis rects r)).toInt = goes axis rects r := by
  have bound := goes_bound sized fits member
  have size := sized r member
  have nonneg := @goes_nonneg axis rects r
  rw [Int32.toInt_ofInt]
  exact Int.bmod_eq_of_le (by simp; omega) (by simp; omega)

theorem lookup_of_nodup {placed : List (Nat × Int32)} {i : Nat} {v : Int32}
    (distinct : (placed.map (·.1)).Nodup) (member : (i, v) ∈ placed) :
    placed.lookup i = some v := by
  induction placed with
  | nil => cases member
  | cons head placed induction =>
    rcases head with ⟨j, w⟩
    rw [List.map_cons, List.nodup_cons] at distinct
    rcases List.mem_cons.mp member with same | later
    · cases same
      exact List.lookup_cons_self
    · have different : i ≠ j := by
        rintro rfl
        exact distinct.1 (List.mem_map.mpr ⟨_, later, rfl⟩)
      rw [List.lookup_cons, beq_false_of_ne different]
      exact induction distinct.2 later

theorem ordered_perm (entries : List (LayoutRect × Nat)) : (ordered axis entries).Perm entries :=
  List.perm_insertionSort _ _

theorem ordered_pairwise (entries : List (LayoutRect × Nat)) :
    (ordered axis entries).Pairwise fun a b => a.1.place axis ≤ b.1.place axis := by
  have total : Std.Total fun a b : LayoutRect × Nat => a.1.place axis ≤ b.1.place axis :=
    ⟨fun _ _ => Int32.le_total _ _⟩
  have transitive : IsTrans (LayoutRect × Nat) fun a b => a.1.place axis ≤ b.1.place axis :=
    ⟨fun _ _ _ => Int32.le_trans⟩
  exact List.pairwise_insertionSort _ _

theorem ordered_spans (entries : List (LayoutRect × Nat)) :
    ((ordered axis entries).map fun e => span axis e.1).Pairwise fun s t => s.1 ≤ t.1 := by
  rw [List.pairwise_map]
  apply (ordered_pairwise entries).imp
  intro a b below
  rw [Int32.le_iff_toInt_le] at below
  exact below

/-- Where closed gaps take every rectangle of a list, its end fits in 32 bits. -/
def Ends (axis : Axis) (entries : List (LayoutRect × Nat)) : Prop :=
  ∀ e ∈ entries, Compaction.compact (entries.map fun e => span axis e.1) 0
    (e.1.place axis).toInt + (e.1.size axis).toInt < 2147483648

section Ordered

variable {entries : List (LayoutRect × Nat)}
  (places : ∀ e ∈ entries, 0 ≤ (e.1.place axis).toInt)
  (sizes : ∀ e ∈ entries, 0 ≤ (e.1.size axis).toInt)

include places sizes

theorem compact_ordered :
    Foundation.Compaction.sweep 0 0 ((ordered axis entries).map fun e => span axis e.1) =
      (ordered axis entries).map fun e =>
        Compaction.compact (entries.map fun e => span axis e.1) 0 (e.1.place axis).toInt := by
  have perm := @ordered_perm axis entries
  have swept := Foundation.Compaction.sweep_eq (@Foundation.Compaction.swept_start
      ((ordered axis entries).map fun e => span axis e.1))
    (ordered_spans entries)
    (fun _ none => by cases none)
    (by
      intro t inOrder
      rcases List.mem_map.mp inOrder with ⟨e, member, rfl⟩
      exact places e (perm.mem_iff.mp member))
    (by
      intro t inOrder
      rcases List.mem_map.mp inOrder with ⟨e, member, rfl⟩
      exact sizes e (perm.mem_iff.mp member))
  rw [List.nil_append, List.map_map] at swept
  rw [swept]
  apply List.map_congr_left
  intro e _
  exact Foundation.Compaction.compact_perm (perm.map _)

theorem sweep_ordered {checked : Bool} (ends : Ends axis entries)
    (distinct : (entries.map (·.2)).Nodup) :
    ∃ placed, sweep checked axis 0 0 (ordered axis entries) = some placed ∧
      ∀ e ∈ entries, (placed.lookup e.2).map Int32.toInt =
        some (Compaction.compact (entries.map fun e => span axis e.1) 0
          (e.1.place axis).toInt) := by
  have perm := @ordered_perm axis entries
  have goes := compact_ordered places sizes
  rcases @sweep_some checked axis 0 0 (ordered axis entries) (by decide) (by decide)
      (fun e inOrder => places e (perm.mem_iff.mp inOrder))
      (fun e inOrder => sizes e (perm.mem_iff.mp inOrder)) (by
      intro p inZip
      rw [Int32.toInt_zero, goes, List.zip_map', List.mem_map] at inZip
      rcases inZip with ⟨e, inOrder, rfl⟩
      exact ends e (perm.mem_iff.mp inOrder)) with ⟨placed, isPlaced, found⟩
  rw [Int32.toInt_zero, goes, List.zip_map'] at found
  refine ⟨placed, isPlaced, fun e member => ?_⟩
  have keys : placed.map (·.1) = (ordered axis entries).map (·.2) := by
    have same := congrArg (List.map Prod.fst) found
    simpa [List.map_map, Function.comp_def] using same
  have here : (e.2, Compaction.compact (entries.map fun e => span axis e.1) 0
      (e.1.place axis).toInt) ∈ placed.map fun p => (p.1, p.2.toInt) := by
    rw [found]
    exact List.mem_map.mpr ⟨e, perm.mem_iff.mpr member, rfl⟩
  rcases List.mem_map.mp here with ⟨⟨i, v⟩, inSweep, same⟩
  rcases Prod.mk.inj same with ⟨rfl, goes⟩
  rw [lookup_of_nodup (by rw [keys]; exact (perm.map _).nodup_iff.mpr distinct) inSweep]
  exact congrArg some goes

/-- Where overflow is checked, a sweep in order that comes to its end shows all ends fit. -/
theorem ends_of_ordered {placed : List (Nat × Int32)}
    (swept : sweep true axis 0 0 (ordered axis entries) = some placed) : Ends axis entries := by
  intro e member
  have ends := ends_of_sweep swept
  rw [Int32.toInt_zero, compact_ordered places sizes, List.zip_map'] at ends
  exact ends _ (List.mem_map.mpr ⟨e, (ordered_perm entries).mem_iff.mpr member, rfl⟩)

end Ordered

/-- A rectangle from the lowest place of its layout. -/
def fromLow (axis : Axis) (rects : List LayoutRect) (r : LayoutRect) : LayoutRect :=
  r.put (Int32.ofInt ((r.place axis).toInt - low axis rects)) axis

/-- The places of a layout spread no farther than what 32 bits hold. -/
def Spread (axis : Axis) (rects : List LayoutRect) : Prop :=
  ∀ r ∈ rects, (r.place axis).toInt - low axis rects < 2147483648

theorem place_fromLow (spread : Spread axis rects) (member : r ∈ rects) :
    ((fromLow axis rects r).place axis).toInt = (r.place axis).toInt - low axis rects := by
  have lower := @low_le axis _ _ member
  have := spread r member
  rw [fromLow, place_put, Int32.toInt_ofInt]
  exact Int.bmod_eq_of_le (by simp; omega) (by simp; omega)

theorem spans_fromLow (spread : Spread axis rects) :
    (((rects.map (fromLow axis rects)).zipIdx).map fun e => span axis e.1) =
      spans axis rects := by
  have unindexed := congrArg (List.map (span axis))
    (List.zipIdx_map_fst 0 (rects.map (fromLow axis rects)))
  rw [List.map_map, List.map_map] at unindexed
  rw [spans]
  calc ((rects.map (fromLow axis rects)).zipIdx).map (fun e => span axis e.1)
      _ = rects.map (span axis ∘ fromLow axis rects) := unindexed
      _ = _ := by
        apply List.map_congr_left
        intro r member
        rw [Function.comp_apply, span, place_fromLow spread member, fromLow, size_put]

theorem exists_of_fromLow {e : LayoutRect × Nat}
    (member : e ∈ (rects.map (fromLow axis rects)).zipIdx) :
    ∃ r ∈ rects, e.1 = fromLow axis rects r := by
  have inMoved := List.fst_mem_of_mem_zipIdx member
  rcases List.mem_map.mp inMoved with ⟨r, isRect, same⟩
  exact ⟨r, isRect, same.symm⟩

theorem moved_some {checked : Bool} {head : LayoutRect}
    (spread : Spread axis (head :: rects)) :
    (head :: rects).mapM (fun s => (sub checked (s.place axis) (lowest axis head rects)).map
      (s.put · axis)) = some ((head :: rects).map (fromLow axis (head :: rects))) := by
  apply Foundation.mapM_eq_map
  intro s member
  have lower : (lowest axis head rects).toInt ≤ (s.place axis).toInt := lowest_le s member
  rcases @sub_some checked (s.place axis) (lowest axis head rects) (by omega) (spread s member) with
      ⟨c, made, exact⟩
  have same : c = Int32.ofInt ((s.place axis).toInt - low axis (head :: rects)) := by
    rw [← Int32.ofInt_toInt c, exact]
    rfl
  rw [made, Option.map_some, same, fromLow]

theorem spread_of_moved {head : LayoutRect} {moved : List LayoutRect}
    (success : (head :: rects).mapM (fun s =>
      (sub true (s.place axis) (lowest axis head rects)).map (s.put · axis)) = some moved) :
    Spread axis (head :: rects) := by
  intro s member
  rcases Foundation.exists_of_mapM success s member with ⟨t, made⟩
  rcases Option.map_eq_some_iff.mp made with ⟨c, isDifference, -⟩
  have bound := (toInt_bounds c).2
  rw [toInt_of_sub isDifference] at bound
  exact bound

/-- The rectangles of a layout from its lowest place, with their positions in the list. -/
def entries (axis : Axis) (rects : List LayoutRect) : List (LayoutRect × Nat) :=
  (rects.map (fromLow axis rects)).zipIdx

theorem places_entries (spread : Spread axis rects) :
    ∀ e ∈ entries axis rects, 0 ≤ (e.1.place axis).toInt := by
  intro e member
  rcases exists_of_fromLow member with ⟨r, isRect, same⟩
  have lower := @low_le axis _ _ isRect
  rw [same, place_fromLow spread isRect]
  omega

theorem sizes_entries (sized : Sized axis rects) :
    ∀ e ∈ entries axis rects, 0 ≤ (e.1.size axis).toInt := by
  intro e member
  rcases exists_of_fromLow member with ⟨r, isRect, same⟩
  rw [same, fromLow, size_put]
  exact sized r isRect

theorem ends_iff (sized : Sized axis rects) (spread : Spread axis rects) :
    Ends axis (entries axis rects) ↔
      ∀ r ∈ rects, goes axis rects r + (r.size axis).toInt < 2147483648 := by
  rw [Ends, entries, spans_fromLow spread]
  constructor
  · intro ends r member
    have inMoved : fromLow axis rects r ∈ rects.map (fromLow axis rects) :=
      List.mem_map_of_mem member
    rw [← List.zipIdx_map_fst 0 (rects.map (fromLow axis rects))] at inMoved
    rcases List.mem_map.mp inMoved with ⟨e, inEntries, same⟩
    have fits := ends e inEntries
    rw [same, place_fromLow spread member, fromLow, size_put] at fits
    exact fits
  · intro ends e member
    rcases exists_of_fromLow member with ⟨r, isRect, same⟩
    rw [same, place_fromLow spread isRect, fromLow, size_put]
    exact ends r isRect

theorem fits_iff (sized : Sized axis rects) :
    Fits axis rects ↔ Spread axis rects ∧
      ∀ r ∈ rects, goes axis rects r + (r.size axis).toInt < 2147483648 := by
  constructor
  · intro fits
    exact ⟨fun r member => (fits r member).1, fun r member => goes_bound sized fits member⟩
  · intro ⟨spread, ends⟩ r member
    refine ⟨spread r member, ?_⟩
    have bound := ends r member
    rw [← goes_end sized member] at bound
    exact bound

theorem normalizeAxis_some {checked : Bool} (sized : Sized axis rects)
    (fits : Fits axis rects) :
    normalizeAxis checked axis rects =
      some (rects.map fun r => r.put (Int32.ofInt (goes axis rects r)) axis) := by
  cases rects with
  | nil => rfl
  | cons head rects =>
    rcases (fits_iff sized).mp fits with ⟨spread, ends⟩
    have distinct : ((entries axis (head :: rects)).map (·.2)).Nodup := by
      rw [entries, List.zipIdx_map_snd]
      exact List.nodup_range'
    rcases @sweep_ordered _ _ (places_entries spread) (sizes_entries sized) checked
        ((ends_iff sized spread).mpr ends) distinct with ⟨placed, swept, found⟩
    rw [normalizeAxis, moved_some spread]
    simp only [Option.bind_eq_bind, Option.bind_some]
    rw [← entries, swept, Option.bind_some]
    congr 1
    have each : ∀ e ∈ entries axis (head :: rects), ∀ r ∈ head :: rects,
        e.1 = fromLow axis (head :: rects) r →
        e.1.put ((placed.lookup e.2).getD (e.1.place axis)) axis =
          r.put (Int32.ofInt (goes axis (head :: rects) r)) axis := by
      intro e member r isRect same
      have goesTo := found e member
      rw [entries, spans_fromLow spread, same, place_fromLow spread isRect] at goesTo
      rcases Option.map_eq_some_iff.mp goesTo with ⟨v, isPlaced, vInt⟩
      rw [isPlaced, same, Option.getD_some, fromLow, put_put, ← Int32.ofInt_toInt v, vInt]
      rfl
    apply List.ext_getElem
    · simp [entries]
    · intro i inLeft inRight
      rw [List.length_map] at inLeft inRight
      rw [List.getElem_map, List.getElem_map]
      apply each _ (List.getElem_mem _) _ (List.getElem_mem _)
      simp only [entries, List.getElem_zipIdx, List.getElem_map]

theorem fits_of_normalizeAxis {out : List LayoutRect} (sized : Sized axis rects)
    (success : normalizeAxis true axis rects = some out) : Fits axis rects := by
  cases rects with
  | nil => exact fun r member => by cases member
  | cons head rects =>
    simp only [normalizeAxis, Option.bind_eq_bind, Option.bind_eq_some_iff] at success
    rcases success with ⟨moved, isMoved, placed, swept, -⟩
    have spread := spread_of_moved isMoved
    rw [moved_some spread] at isMoved
    rw [← Option.some.inj isMoved] at swept
    have ends := ends_of_ordered (places_entries spread) (sizes_entries sized) swept
    exact (fits_iff sized).mpr ⟨spread, (ends_iff sized spread).mp ends⟩

end EclipseOS.Abyss.OutputLayout
