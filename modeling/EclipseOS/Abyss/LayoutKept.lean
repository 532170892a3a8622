import EclipseOS.Abyss.OutputLayout

/-! # What a normalised layout keeps

Normalising closes the gaps of each axis on its own, so what holds of one axis holds of the
layout. -/

namespace EclipseOS.Abyss.OutputLayout

open Foundation (Compaction.Span Compaction.compact Compaction.extent)

namespace LayoutRect

def near (r : LayoutRect) (axis : Axis) : Int := (r.place axis).toInt

def far (r : LayoutRect) (axis : Axis) : Int := (r.place axis).toInt + (r.size axis).toInt

def Overlaps (a b : LayoutRect) : Prop :=
  ∀ axis, a.near axis < b.far axis ∧ b.near axis < a.far axis

/-- Two rectangles touch or overlap on an axis. -/
def Touches (axis : Axis) (a b : LayoutRect) : Prop :=
  a.near axis ≤ b.far axis ∧ b.near axis ≤ a.far axis

theorem ext_axes {a b : LayoutRect} (places : ∀ axis, a.place axis = b.place axis)
    (sizes : ∀ axis, a.size axis = b.size axis) : a = b := by
  cases a
  cases b
  have x := places .x
  have y := places .y
  have w := sizes .x
  have h := sizes .y
  simp only [place, size] at x y w h
  subst x y w h
  rfl

end LayoutRect

open LayoutRect

/-- What normalising a layout promises of its result. -/
structure Normalizes (checked : Bool) (rects out : List LayoutRect) : Prop where
  length : out.length = rects.length
  sizes : ∀ p ∈ rects.zip out, ∀ axis, p.2.size axis = p.1.size axis
  order : ∀ axis, ∀ p ∈ rects.zip out, ∀ q ∈ rects.zip out,
    p.1.near axis ≤ q.1.near axis → p.2.near axis ≤ q.2.near axis
  origin : ∀ axis, (∀ r ∈ out, 0 ≤ r.near axis) ∧ ∃ r ∈ out, r.near axis = 0
  /-- Nothing is uncovered between the origin and the farthest edge. -/
  noGap : ∀ axis, ∀ r ∈ out, ∀ p, 0 ≤ p → p < r.far axis →
    ∃ s ∈ out, s.near axis ≤ p ∧ p < s.far axis
  apart : ∀ p ∈ rects.zip out, ∀ q ∈ rects.zip out,
    ¬p.1.Overlaps q.1 → ¬p.2.Overlaps q.2
  offset : ∀ axis, ∀ p ∈ rects.zip out, ∀ q ∈ rects.zip out, p.1.Touches axis q.1 →
    q.2.near axis - p.2.near axis = q.1.near axis - p.1.near axis
  again : normalizeLayout checked out = some out

variable {axis other : Axis} {rects : List LayoutRect} {r s : LayoutRect}

/-! ## One axis does not move another -/

theorem lowest_map_put {head : LayoutRect} (different : axis ≠ other) (v : LayoutRect → Int32) :
    lowest other (head.put (v head) axis) (rects.map fun r => r.put (v r) axis) =
      lowest other head rects := by
  simp only [lowest, List.foldl_map, place_put_of_ne different]

theorem low_map_put (different : axis ≠ other) (v : LayoutRect → Int32) :
    low other (rects.map fun r => r.put (v r) axis) = low other rects := by
  cases rects with
  | nil => rfl
  | cons head rects => exact congrArg Int32.toInt (lowest_map_put different v)

theorem spans_map_put (different : axis ≠ other) (v : LayoutRect → Int32) :
    spans other (rects.map fun r => r.put (v r) axis) = spans other rects := by
  rw [spans, low_map_put different, List.map_map]
  apply List.map_congr_left
  intro r _
  rw [Function.comp_apply, place_put_of_ne different, size_put]

theorem goes_map_put (different : axis ≠ other) (v : LayoutRect → Int32) (w : Int32) :
    goes other (rects.map fun r => r.put (v r) axis) (r.put w axis) = goes other rects r := by
  rw [goes, spans_map_put different, low_map_put different, place_put_of_ne different, goes]

theorem fits_map_put (different : axis ≠ other) (v : LayoutRect → Int32) :
    Fits other (rects.map fun r => r.put (v r) axis) ↔ Fits other rects := by
  simp only [Fits, List.forall_mem_map, spans_map_put different, low_map_put different,
    place_put_of_ne different, size_put]

theorem sized_map_put (v : LayoutRect → Int32) :
    Sized other (rects.map fun r => r.put (v r) axis) ↔ Sized other rects := by
  simp only [Sized, List.forall_mem_map, size_put]

/-! ## The whole layout -/

def normal (rects : List LayoutRect) (r : LayoutRect) : LayoutRect :=
  (r.put (Int32.ofInt (goes .x rects r)) .x).put (Int32.ofInt (goes .y rects r)) .y

@[simp] theorem size_normal : (normal rects r).size axis = r.size axis := by
  rw [normal, size_put, size_put]

theorem place_normal : (normal rects r).place axis = Int32.ofInt (goes axis rects r) := by
  cases axis <;> rfl

theorem mem_zip_normal {p : LayoutRect × LayoutRect}
    (member : p ∈ rects.zip (rects.map (normal rects))) :
    p.1 ∈ rects ∧ p.2 = normal rects p.1 := by
  have paired : rects.zip (rects.map (normal rects)) = rects.map fun r => (r, normal rects r) := by
    have mapped := List.zip_map' (f := id) (g := normal rects) (l := rects)
    rw [List.map_id] at mapped
    exact mapped
  rw [paired] at member
  rcases List.mem_map.mp member with ⟨r, isRect, rfl⟩
  exact ⟨isRect, rfl⟩

section Normal

variable (sized : ∀ axis, Sized axis rects) (fits : ∀ axis, Fits axis rects)

include sized fits

theorem near_normal (member : r ∈ rects) : (normal rects r).near axis = goes axis rects r := by
  rw [near, place_normal, toInt_goes (sized axis) (fits axis) member]

theorem far_normal (member : r ∈ rects) :
    (normal rects r).far axis = goes axis rects r + (r.size axis).toInt := by
  have start := @near_normal axis _ _ sized fits member
  rw [near] at start
  rw [far, start, size_normal]

theorem normalizeLayout_some {checked : Bool} :
    normalizeLayout checked rects = some (rects.map (normal rects)) := by
  have different : Axis.x ≠ Axis.y := by decide
  rw [normalizeLayout, normalizeAxis_some (sized .x) (fits .x), Option.bind_eq_bind,
    Option.bind_some, normalizeAxis_some
      ((sized_map_put _).mpr (sized .y)) ((fits_map_put different _).mpr (fits .y)), List.map_map]
  congr 1
  apply List.map_congr_left
  intro r _
  rw [Function.comp_apply, goes_map_put different]
  rfl

theorem low_normal (nonempty : rects ≠ []) : low axis (rects.map (normal rects)) = 0 := by
  rcases @low_mem axis (rects.map (normal rects)) (by simpa using nonempty) with
    ⟨t, inOut, lowest⟩
  rcases List.mem_map.mp inOut with ⟨r, member, rfl⟩
  rcases @low_mem axis _ nonempty with ⟨s, first, isLow⟩
  have atOrigin : goes axis rects s = 0 := by
    rw [goes, isLow, sub_self]
    exact Foundation.Compaction.compact_low
  have below := @low_le axis _ _ (List.mem_map_of_mem (f := normal rects) first)
  have start := @near_normal axis _ _ sized fits first
  have start' := @near_normal axis _ _ sized fits member
  rw [near] at start start'
  rw [start, atOrigin] at below
  rw [start'] at lowest
  have := @goes_nonneg axis rects r
  omega

theorem spans_normal (nonempty : rects ≠ []) :
    spans axis (rects.map (normal rects)) =
      (spans axis rects).map fun s => (Compaction.compact (spans axis rects) 0 s.1, s.2) := by
  rw [spans, low_normal sized fits nonempty, List.map_map, spans, List.map_map]
  apply List.map_congr_left
  intro r member
  have start := @near_normal axis _ _ sized fits member
  rw [near] at start
  simp only [Function.comp_apply, start, size_normal, sub_zero]
  rfl

theorem compact_normal (nonempty : rects ≠ []) {x : Int} (nonneg : 0 ≤ x) :
    Compaction.compact (spans axis (rects.map (normal rects))) 0
      (Compaction.compact (spans axis rects) 0 x) = Compaction.compact (spans axis rects) 0 x := by
  rw [spans_normal sized fits nonempty]
  exact Foundation.Compaction.compact_compact spans_nonneg nonneg

theorem goes_normal (nonempty : rects ≠ []) (member : r ∈ rects) :
    goes axis (rects.map (normal rects)) (normal rects r) = goes axis rects r := by
  have start := @near_normal axis _ _ sized fits member
  rw [near] at start
  have below := @low_le axis _ _ member
  rw [goes, start, low_normal sized fits nonempty, sub_zero]
  exact compact_normal sized fits nonempty (by omega)

theorem fits_normal (nonempty : rects ≠ []) : Fits axis (rects.map (normal rects)) := by
  intro t inOut
  rcases List.mem_map.mp inOut with ⟨r, member, rfl⟩
  have start := @near_normal axis _ _ sized fits member
  rw [near] at start
  have bound := goes_bound (sized axis) (fits axis) member
  have size := sized axis r member
  have below := @low_le axis _ _ member
  rw [start, low_normal sized fits nonempty, sub_zero, size_normal,
    ← goes_end (sized axis) member]
  refine ⟨by omega, ?_⟩
  have again := @compact_normal axis _ sized fits nonempty
      ((r.place axis).toInt - low axis rects + (r.size axis).toInt) (by omega)
  rw [Compaction.compact] at again
  rw [again, goes_end (sized axis) member]
  exact bound

theorem normalizeLayout_again (nonempty : rects ≠ []) {checked : Bool} :
    normalizeLayout checked (rects.map (normal rects)) = some (rects.map (normal rects)) := by
  have sizedOut : ∀ axis, Sized axis (rects.map (normal rects)) := by
    intro axis
    simp only [Sized, List.forall_mem_map, size_normal]
    exact sized axis
  rw [normalizeLayout_some sizedOut fun axis => fits_normal sized fits nonempty, List.map_map]
  congr 1
  apply List.map_congr_left
  intro r member
  apply ext_axes
  · intro axis
    rw [Function.comp_apply, place_normal, goes_normal sized fits nonempty member, place_normal]
  · intro axis
    rw [Function.comp_apply, size_normal]

theorem noGap_normal {p : Int} (member : r ∈ rects) (nonneg : 0 ≤ p)
    (below : p < (normal rects r).far axis) :
    ∃ s ∈ rects, (normal rects s).near axis ≤ p ∧ p < (normal rects s).far axis := by
  have size := sized axis r member
  have lower := @low_le axis _ _ member
  rw [far_normal sized fits member, ← goes_end (sized axis) member] at below
  rcases Foundation.Compaction.covered_compact spans_nonneg (by omega) nonneg below with
    ⟨t, inSpans, first, last⟩
  rw [spans, List.map_map] at inSpans
  rcases List.mem_map.mp inSpans with ⟨s, isRect, rfl⟩
  refine ⟨s, isRect, ?_, ?_⟩
  · rw [near_normal sized fits isRect]
    exact first
  · rw [far_normal sized fits isRect]
    exact last

theorem separated_normal (first : r ∈ rects) (second : s ∈ rects)
    (separated : r.far axis ≤ s.near axis) :
    (normal rects r).far axis ≤ (normal rects s).near axis := by
  have start := @low_le axis _ _ first
  have moved := @Foundation.Compaction.compact_separated _ 0 ((s.place axis).toInt - low axis rects)
      _ (@span_mem axis _ _ first) (spans_nonneg _ (span_mem first)) (sized axis r first)
      (by rw [far, near] at separated; dsimp only; omega)
  rw [far_normal sized fits first, near_normal sized fits second]
  exact moved

theorem apart_normal (first : r ∈ rects) (second : s ∈ rects) (apart : ¬r.Overlaps s) :
    ¬(normal rects r).Overlaps (normal rects s) := by
  intro overlaps
  apply apart
  intro axis
  have both := overlaps axis
  constructor
  · by_contra after
    have := separated_normal sized fits second first (not_lt.mp after)
    omega
  · by_contra before
    have := separated_normal sized fits first second (not_lt.mp before)
    omega

theorem offset_normal (first : r ∈ rects) (second : s ∈ rects)
    (after : r.near axis ≤ s.near axis) (touches : s.near axis ≤ r.far axis) :
    (normal rects s).near axis - (normal rects r).near axis = s.near axis - r.near axis := by
  have moved := @Foundation.Compaction.compact_touching _ 0 ((s.place axis).toInt - low axis rects)
      _ (@span_mem axis _ _ first) (spans_nonneg _ (span_mem first))
      (by rw [near, near] at after; dsimp only; omega)
      (by rw [near, far] at touches; dsimp only; omega)
  rw [near_normal sized fits first, near_normal sized fits second, near, near, goes, goes]
  rw [moved]
  dsimp only
  omega

theorem normalizes (nonempty : rects ≠ []) {checked : Bool} :
    Normalizes checked rects (rects.map (normal rects)) where
  length := List.length_map ..
  sizes p member axis := by
    rw [(mem_zip_normal member).2, size_normal]
  order axis p first q second before := by
    rcases mem_zip_normal first with ⟨firstMem, firstIs⟩
    rcases mem_zip_normal second with ⟨secondMem, secondIs⟩
    have lower := @low_le axis _ _ firstMem
    rw [firstIs, secondIs, near_normal sized fits firstMem, near_normal sized fits secondMem]
    rw [near, near] at before
    exact Foundation.Compaction.compact_mono (by omega) (by omega)
  origin axis := by
    have isLow := @low_normal axis _ sized fits nonempty
    constructor
    · intro t member
      have := @low_le axis _ _ member
      rw [near]
      omega
    · rcases @low_mem axis (rects.map (normal rects)) (by simpa using nonempty) with
          ⟨t, member, lowest⟩
      exact ⟨t, member, by rw [near, lowest, isLow]⟩
  noGap axis t inOut p nonneg below := by
    rcases List.mem_map.mp inOut with ⟨r, member, rfl⟩
    rcases noGap_normal sized fits member nonneg below with ⟨s, isRect, first, last⟩
    exact ⟨_, List.mem_map_of_mem isRect, first, last⟩
  apart p first q second apart := by
    rcases mem_zip_normal first with ⟨firstMem, firstIs⟩
    rcases mem_zip_normal second with ⟨secondMem, secondIs⟩
    rw [firstIs, secondIs]
    exact apart_normal sized fits firstMem secondMem apart
  offset axis p first q second touches := by
    rcases mem_zip_normal first with ⟨firstMem, firstIs⟩
    rcases mem_zip_normal second with ⟨secondMem, secondIs⟩
    rw [firstIs, secondIs]
    rcases le_total (p.1.near axis) (q.1.near axis) with before | before
    · exact offset_normal sized fits firstMem secondMem before touches.2
    · have moved := offset_normal sized fits secondMem firstMem before touches.1
      omega
  again := normalizeLayout_again sized fits nonempty

end Normal

theorem fits_of_normalizeLayout {out : List LayoutRect} (sized : ∀ axis, Sized axis rects)
    (made : normalizeLayout true rects = some out) : ∀ axis, Fits axis rects := by
  rw [normalizeLayout, Option.bind_eq_bind, Option.bind_eq_some_iff] at made
  rcases made with ⟨first, madeX, madeY⟩
  have fitsX := fits_of_normalizeAxis (sized .x) madeX
  rw [normalizeAxis_some (sized .x) fitsX] at madeX
  rw [← Option.some.inj madeX] at madeY
  have fitsY := fits_of_normalizeAxis ((sized_map_put _).mpr (sized .y)) madeY
  intro axis
  cases axis with
  | x => exact fitsX
  | y => exact (fits_map_put (by decide) _).mp fitsY

/-- Normalising keeps what it promises, whether the build checks overflow or not, exactly where
no place and no end overflows. -/
theorem normalizeLayout_iff (nonempty : rects ≠ []) (sized : ∀ axis, Sized axis rects) :
    (∀ checked, ∃ out, normalizeLayout checked rects = some out ∧
      Normalizes checked rects out) ↔ ∀ axis, Fits axis rects := by
  constructor
  · intro all
    rcases all true with ⟨out, made, -⟩
    exact fits_of_normalizeLayout sized made
  · intro fits checked
    exact ⟨_, normalizeLayout_some sized fits, normalizes sized fits nonempty⟩

theorem normalizeLayout_iff_threeOutputs :
    ([⟨0, 0, 1920, 1080⟩, ⟨3000, 0, 1080, 1920⟩] : List LayoutRect) ≠ [] ∧
      ((∀ checked, ∃ out, normalizeLayout checked
        [⟨0, 0, 1920, 1080⟩, ⟨3000, 0, 1080, 1920⟩] = some out ∧
        Normalizes checked [⟨0, 0, 1920, 1080⟩, ⟨3000, 0, 1080, 1920⟩] out) ↔
      ∀ axis, Fits axis [⟨0, 0, 1920, 1080⟩, ⟨3000, 0, 1080, 1920⟩]) := by
  refine ⟨by decide, normalizeLayout_iff (by decide) ?_⟩
  intro axis r member
  rcases List.mem_cons.mp member with rfl | rest
  · cases axis <;> decide
  · rw [List.mem_singleton.mp rest]
    cases axis <;> decide

/-- Two outputs farther from each other than 32 bits hold: the first one's distance from the
second wraps, and it is left far before the origin. -/
theorem farApart_wraps : ¬∀ rects : List LayoutRect, rects ≠ [] →
    (∀ axis, Sized axis rects) → ∀ checked, ∃ out, normalizeLayout checked rects = some out ∧
      Normalizes checked rects out := by
  intro all
  rcases all [⟨1000, 0, 1920, 1080⟩, ⟨-2147483648, 0, 1920, 1080⟩] (by decide) (by
    intro axis r member
    rcases List.mem_cons.mp member with rfl | rest
    · cases axis <;> decide
    · rw [List.mem_singleton.mp rest]
      cases axis <;> decide) false with ⟨out, made, normalizes⟩
  have wrapped : normalizeLayout false
      [⟨1000, 0, 1920, 1080⟩, ⟨-2147483648, 0, 1920, 1080⟩] =
        some [⟨-2147482648, 0, 1920, 1080⟩, ⟨0, 0, 1920, 1080⟩] := by
    decide +kernel
  rw [wrapped] at made
  rw [← Option.some.inj made] at normalizes
  have nonneg := (normalizes.origin .x).1 _ List.mem_cons_self
  exact absurd nonneg (by decide)

end EclipseOS.Abyss.OutputLayout
