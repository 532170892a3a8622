import Mathlib.Algebra.Order.Floor.Ring
import Mathlib.Data.Rat.Floor
import Mathlib.Algebra.Order.BigOperators.Group.List
import Mathlib.Tactic.Linarith
import Mathlib.Tactic.Positivity

/-! # Tiling

How a container of the layout tree shares its rectangle between its children. -/

namespace EclipseOS.Abyss

structure Rectangle where
  x : Int
  y : Int
  w : Int
  h : Int
  deriving DecidableEq

namespace Rectangle

/-- Where the rectangle starts, left to right when `sideBySide`, else top to bottom. -/
def near (r : Rectangle) (sideBySide : Bool) : Int := if sideBySide then r.x else r.y

def extent (r : Rectangle) (sideBySide : Bool) : Int := if sideBySide then r.w else r.h

def far (r : Rectangle) (sideBySide : Bool) : Int := r.near sideBySide + r.extent sideBySide

/-- `p` lies inside `r`. -/
def Holds (r p : Rectangle) : Prop :=
  ∀ sideBySide, r.near sideBySide ≤ p.near sideBySide ∧ p.far sideBySide ≤ r.far sideBySide

end Rectangle

namespace Tiling

def RESIZE_WEIGHT : ℚ × ℚ := (1 / 10, 20)

/-- The part of `r` from `offset` on, `len` long. -/
def piece (r : Rectangle) (sideBySide : Bool) (offset len : Int) : Rectangle :=
  if sideBySide then { r with x := r.x + offset, w := len }
  else { r with y := r.y + offset, h := len }

/-- A child's share of the room between the gaps. The epsilon keeps an exact share from
losing a pixel to rounding. -/
def share (span : Int) (total w : ℚ) : ℚ := span * max w 0 / total + 1 / 1000000

/-- How long the piece of a child is that is not the last. -/
def length (span : Int) (total : ℚ) (n : Nat) (w : ℚ) : Int :=
  if 0 < total then max ⌊share span total w⌋ 1 else max (span.tdiv n) 1

/-- The pieces of the children that are left, from `offset` on. The last takes what
remains. -/
def splitFrom (r : Rectangle) (sideBySide : Bool) (gap span : Int) (total : ℚ) (n : Nat) :
    Int → List ℚ → List Rectangle
  | _, [] => []
  | offset, [_] => [piece r sideBySide offset (max (r.extent sideBySide - offset) 1)]
  | offset, w :: next :: rest =>
    piece r sideBySide offset (length span total n w) ::
      splitFrom r sideBySide gap span total n (offset + (length span total n w + gap))
        (next :: rest)

/-- What the gaps leave, a pixel a child at least. -/
def spanOf (extent gap : Int) (n : Nat) : Int := max (extent - gap * (n - 1)) n

/-- Splits `r` along one axis in proportion to `weights`, with `gap` between neighbours. -/
def splitWeighted (r : Rectangle) (sideBySide : Bool) (weights : List ℚ) (gap : Int) :
    List Rectangle :=
  splitFrom r sideBySide gap (spanOf (r.extent sideBySide) gap weights.length)
    (weights.map (max · 0)).sum weights.length 0 weights

example : splitWeighted ⟨0, 0, 100, 1003⟩ false [1, 1, 2] 0 =
    [⟨0, 0, 100, 250⟩, ⟨0, 250, 100, 250⟩, ⟨0, 500, 100, 503⟩] := by
  decide +kernel

/-! ## What a container gets -/

/-- The children of `r` share all of it, one gap apart. -/
structure Fills (r : Rectangle) (sideBySide : Bool) (gap : Int) (pieces : List Rectangle) :
    Prop where
  inside : ∀ p ∈ pieces, r.Holds p
  apart : pieces.IsChain fun a b => a.far sideBySide + gap = b.near sideBySide
  seen : ∀ p ∈ pieces, 1 ≤ p.extent sideBySide
  ends : ∀ p ∈ pieces.getLast?, p.far sideBySide = r.far sideBySide

/-- A rectangle has a pixel for each of `n` children and the gaps between them. -/
structure Room (r : Rectangle) (sideBySide : Bool) (gap : Int) (n : Nat) : Prop where
  gapped : 0 ≤ gap
  pixels : n + gap * (n - 1) ≤ r.extent sideBySide

/-- How many of the shares are under one pixel. -/
def thin (span : Int) (total : ℚ) (weights : List ℚ) : Nat :=
  weights.countP fun w => share span total w < 1

def whole (span : Int) (total : ℚ) (weights : List ℚ) : Int :=
  (weights.map fun w => ⌊share span total w⌋).sum

/-! ## Pieces -/

section

variable {r : Rectangle} {sideBySide : Bool} {offset len : Int}

@[simp] theorem near_piece :
    (piece r sideBySide offset len).near sideBySide = r.near sideBySide + offset := by
  cases sideBySide <;> rfl

@[simp] theorem extent_piece : (piece r sideBySide offset len).extent sideBySide = len := by
  cases sideBySide <;> rfl

@[simp] theorem far_piece :
    (piece r sideBySide offset len).far sideBySide = r.near sideBySide + offset + len := by
  simp [Rectangle.far]

theorem holds_piece (start : 0 ≤ offset) (stop : offset + len ≤ r.extent sideBySide) :
    r.Holds (piece r sideBySide offset len) := by
  intro axis
  cases sideBySide <;> cases axis <;>
    simp [piece, Rectangle.near, Rectangle.far, Rectangle.extent] at stop ⊢ <;> omega

end

/-! ## Lengths -/

section

variable {span : Int} {total : ℚ} {n : Nat} {w : ℚ} {weights : List ℚ}

theorem one_le_length : 1 ≤ length span total n w := by
  unfold length
  split <;> exact le_max_right _ _

theorem share_pos (positive : 0 < total) (pixels : 0 ≤ span) : 0 < share span total w := by
  have nonneg : 0 ≤ (span : ℚ) * max w 0 / total :=
    div_nonneg (mul_nonneg (by exact_mod_cast pixels) (le_max_right _ _)) positive.le
  unfold share
  linarith

/-- A piece is as long as the whole pixels of its share, one longer when there are none. -/
theorem length_eq (positive : 0 < total) (pixels : 0 ≤ span) :
    length span total n w =
      ⌊share span total w⌋ + if share span total w < 1 then 1 else 0 := by
  have nonneg : 0 ≤ ⌊share span total w⌋ := Int.floor_nonneg.mpr (share_pos positive pixels).le
  rw [length, if_pos positive]
  split
  · rename_i under
    have none : ⌊share span total w⌋ < 1 := by
      rw [Int.floor_lt]
      exact_mod_cast under
    omega
  · rename_i reaches
    have some : 1 ≤ ⌊share span total w⌋ := by
      rw [Int.le_floor]
      exact_mod_cast not_lt.mp reaches
    omega

theorem sum_length (positive : 0 < total) (pixels : 0 ≤ span) (n : Nat) (weights : List ℚ) :
    (weights.map (length span total n)).sum =
      thin span total weights + whole span total weights := by
  induction weights with
  | nil => rfl
  | cons w rest ih =>
    simp only [List.map_cons, List.sum_cons, ih, length_eq positive pixels, thin, whole,
      List.countP_cons, decide_eq_true_eq]
    split <;> push_cast <;> omega

end

/-! ## Splitting -/

section

variable {r : Rectangle} {sideBySide : Bool} {gap span offset : Int} {total : ℚ} {n : Nat}
variable {w : ℚ} {weights : List ℚ}

/-- How far the pieces of all these children reach, each with the gap after it. -/
def reach (gap span : Int) (total : ℚ) (n : Nat) (weights : List ℚ) : Int :=
  (weights.map fun w => length span total n w + gap).sum

theorem reach_eq (weights : List ℚ) : reach gap span total n weights =
    (weights.map (length span total n)).sum + gap * weights.length := by
  induction weights with
  | nil => simp [reach]
  | cons w rest ih =>
    simp only [reach, List.map_cons, List.sum_cons, List.length_cons] at ih ⊢
    rw [ih]
    push_cast
    ring

theorem reach_nonneg (gapped : 0 ≤ gap) (weights : List ℚ) :
    0 ≤ reach gap span total n weights := by
  apply List.sum_nonneg
  intro step member
  rcases List.mem_map.mp member with ⟨w, _, rfl⟩
  have pixel : 1 ≤ length span total n w := one_le_length
  omega

attribute [local simp] splitFrom

theorem head_splitFrom {p : Rectangle}
    (first : p ∈ (splitFrom r sideBySide gap span total n offset weights).head?) :
    p.near sideBySide = r.near sideBySide + offset := by
  match weights with
  | [] => simp [splitFrom] at first
  | [w] =>
    simp only [splitFrom, List.head?_cons, Option.mem_some_iff] at first
    subst first
    exact near_piece
  | w :: next :: rest =>
    simp only [splitFrom, List.head?_cons, Option.mem_some_iff] at first
    subst first
    exact near_piece

theorem apart_splitFrom (weights : List ℚ) (offset : Int) :
    (splitFrom r sideBySide gap span total n offset weights).IsChain
      fun a b => a.far sideBySide + gap = b.near sideBySide := by
  induction weights generalizing offset with
  | nil => exact .nil
  | cons w rest ih =>
    cases rest with
    | nil => exact .singleton _
    | cons next rest =>
      rw [splitFrom, List.isChain_cons]
      refine ⟨fun p first => ?_, ih _⟩
      rw [head_splitFrom first, far_piece]
      omega

theorem seen_splitFrom {p : Rectangle}
    (member : p ∈ splitFrom r sideBySide gap span total n offset weights) :
    1 ≤ p.extent sideBySide := by
  induction weights generalizing offset with
  | nil => simp [splitFrom] at member
  | cons w rest ih =>
    cases rest with
    | nil =>
      simp only [splitFrom, List.mem_singleton] at member
      rw [member, extent_piece]
      exact le_max_right _ _
    | cons next rest =>
      rcases List.mem_cons.mp member with rfl | later
      · rw [extent_piece]
        exact one_le_length
      · exact ih later

theorem getLast_splitFrom (nonempty : weights ≠ []) (offset : Int) :
    (splitFrom r sideBySide gap span total n offset weights).getLast? =
      some (piece r sideBySide (offset + reach gap span total n weights.dropLast)
        (max (r.extent sideBySide - (offset + reach gap span total n weights.dropLast)) 1)) := by
  induction weights generalizing offset with
  | nil => exact absurd rfl nonempty
  | cons w rest ih =>
    cases rest with
    | nil => simp [splitFrom, reach]
    | cons next rest =>
      have moved : offset + (length span total n w + gap) +
          reach gap span total n (next :: rest).dropLast =
          offset + reach gap span total n (w :: next :: rest).dropLast := by
        simp only [reach, List.dropLast_cons_cons, List.map_cons, List.sum_cons]
        omega
      rw [splitFrom, List.getLast?_cons, ih (List.cons_ne_nil _ _), moved]
      rfl

theorem inside_splitFrom (gapped : 0 ≤ gap) (start : 0 ≤ offset) {p : Rectangle}
    (below : offset + reach gap span total n weights.dropLast < r.extent sideBySide)
    (member : p ∈ splitFrom r sideBySide gap span total n offset weights) : r.Holds p := by
  induction weights generalizing offset with
  | nil => simp [splitFrom] at member
  | cons w rest ih =>
    cases rest with
    | nil =>
      simp only [splitFrom, List.mem_singleton] at member
      rw [member]
      simp [reach] at below
      exact holds_piece start (by omega)
    | cons next rest =>
      have pixel : 1 ≤ length span total n w := one_le_length
      have more : 0 ≤ reach gap span total n (next :: rest).dropLast :=
        reach_nonneg gapped _
      have parts : reach gap span total n (w :: next :: rest).dropLast =
          length span total n w + gap + reach gap span total n (next :: rest).dropLast := by
        simp [reach]
      rcases List.mem_cons.mp member with rfl | later
      · exact holds_piece start (by omega)
      · exact ih (by omega) (by omega) later

theorem fills_splitFrom (nonempty : weights ≠ []) (gapped : 0 ≤ gap) :
    Fills r sideBySide gap (splitFrom r sideBySide gap span total n 0 weights) ↔
      reach gap span total n weights.dropLast < r.extent sideBySide := by
  have last := @getLast_splitFrom r sideBySide gap span total n _ nonempty 0
  constructor
  · intro fills
    have ends := fills.ends _ last
    rw [far_piece, Rectangle.far] at ends
    omega
  · intro below
    refine ⟨fun p member => ?_, apart_splitFrom weights 0, fun p member => ?_, fun p ends => ?_⟩
    · exact inside_splitFrom gapped le_rfl (by omega) member
    · exact seen_splitFrom member
    · rw [last, Option.mem_some_iff] at ends
      subst ends
      rw [far_piece, Rectangle.far]
      omega

end

section

variable {r : Rectangle} {sideBySide : Bool} {gap : Int} {weights : List ℚ}

theorem weights_pos (bounded : ∀ w ∈ weights, RESIZE_WEIGHT.1 ≤ w ∧ w ≤ RESIZE_WEIGHT.2) :
    ∀ w ∈ weights, 0 < w := by
  intro w member
  have low := (bounded w member).1
  unfold RESIZE_WEIGHT at low
  linarith

/-- What the gaps leave of `r` for `n` children. -/
def pixels (r : Rectangle) (sideBySide : Bool) (gap : Int) (n : Nat) : Int :=
  r.extent sideBySide - gap * (n - 1)

theorem spanOf_eq {n : Nat} (room : Room r sideBySide gap n) :
    spanOf (r.extent sideBySide) gap n = pixels r sideBySide gap n := by
  have pixel := room.pixels
  unfold spanOf pixels
  omega

theorem fills_iff (empty : weights ≠ [])
    (bounded : ∀ w ∈ weights, RESIZE_WEIGHT.1 ≤ w ∧ w ≤ RESIZE_WEIGHT.2)
    (room : Room r sideBySide gap weights.length) :
    Fills r sideBySide gap (splitWeighted r sideBySide weights gap) ↔
      thin (pixels r sideBySide gap weights.length) weights.sum weights.dropLast +
        whole (pixels r sideBySide gap weights.length) weights.sum weights.dropLast <
          pixels r sideBySide gap weights.length := by
  have positive := weights_pos bounded
  have kept : weights.map (max · 0) = weights := by
    rw [List.map_congr_left fun w member => max_eq_left (positive w member).le, List.map_id']
  have total : 0 < weights.sum := List.sum_pos _ positive empty
  have enough : 0 ≤ pixels r sideBySide gap weights.length := by
    have := room.pixels
    unfold pixels
    omega
  have few : (weights.dropLast.length : Int) = weights.length - 1 := by
    have some := List.length_pos_iff.mpr empty
    rw [List.length_dropLast]
    omega
  rw [splitWeighted, fills_splitFrom empty room.gapped, kept, spanOf_eq room, reach_eq,
    sum_length total enough, few]
  unfold pixels
  omega

/-- The children of a container fill it exactly when the pixels that thin shares are raised
by leave one for the last child: the earlier shares under a pixel, with the whole pixels of
the earlier shares, come to less than the gaps leave. -/
theorem splitWeighted_fills (r : Rectangle) (sideBySide : Bool) (weights : List ℚ) (gap : Int)
    (bounded : ∀ w ∈ weights, RESIZE_WEIGHT.1 ≤ w ∧ w ≤ RESIZE_WEIGHT.2)
    (room : Room r sideBySide gap weights.length) :
    Fills r sideBySide gap (splitWeighted r sideBySide weights gap) ↔
      weights = [] ∨
        thin (pixels r sideBySide gap weights.length) weights.sum weights.dropLast +
          whole (pixels r sideBySide gap weights.length) weights.sum weights.dropLast <
            pixels r sideBySide gap weights.length := by
  by_cases empty : weights = []
  · subst empty
    have none : Fills r sideBySide gap [] :=
      ⟨nofun, .nil, nofun, nofun⟩
    simpa [splitWeighted, splitFrom] using none
  · rw [fills_iff empty bounded room, or_iff_right empty]

theorem splitWeighted_fills_once :
    (∀ w ∈ ([1, 1, 2] : List ℚ), RESIZE_WEIGHT.1 ≤ w ∧ w ≤ RESIZE_WEIGHT.2) ∧
      Room ⟨0, 0, 1020, 100⟩ true 10 3 ∧
        Fills ⟨0, 0, 1020, 100⟩ true 10 (splitWeighted ⟨0, 0, 1020, 100⟩ true [1, 1, 2] 10) := by
  have bounded : ∀ w ∈ ([1, 1, 2] : List ℚ), RESIZE_WEIGHT.1 ≤ w ∧ w ≤ RESIZE_WEIGHT.2 := by
    decide +kernel
  have room : Room ⟨0, 0, 1020, 100⟩ true 10 3 := ⟨by decide, by decide⟩
  exact ⟨bounded, room, (splitWeighted_fills _ true [1, 1, 2] 10 bounded room).mpr
    (.inr (by decide +kernel))⟩

/-- Two light children after a heavy one are a pixel each, and the last of them does not fit. -/
theorem light_children_overflow : ¬∀ (r : Rectangle) (sideBySide : Bool) (weights : List ℚ)
    (gap : Int), (∀ w ∈ weights, RESIZE_WEIGHT.1 ≤ w ∧ w ≤ RESIZE_WEIGHT.2) →
      Room r sideBySide gap weights.length →
        Fills r sideBySide gap (splitWeighted r sideBySide weights gap) := by
  intro always
  have fills := always ⟨0, 0, 3, 10⟩ true [20, 1 / 10, 1 / 10] 0 (by decide +kernel)
    ⟨by decide, by decide⟩
  have ends := fills.ends ⟨3, 0, 1, 10⟩ (by decide +kernel)
  exact absurd ends (by decide)

end

end Tiling

end EclipseOS.Abyss
