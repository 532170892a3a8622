import EclipseOS.Abyss.LayoutKept

/-! # Laying the desktop out

Configured positions first, then remembered ones, then a row from left to right. -/

namespace EclipseOS.Abyss.OutputLayout

open LayoutRect

abbrev Point := Int32 × Int32

structure DisplayEntry where
  id : Nat
  connector : String
  identity : String
  enabled : Bool
  /-- Its logical size at its current mode, scale and transform. -/
  size : Int32 × Int32
  deriving DecidableEq

/-- The outputs, the positions the configuration writes down, and those saved for this set of
outputs. -/
structure Desktop where
  entries : List DisplayEntry
  distinct : (entries.map (·.id)).Nodup
  outputRule : String → String → Option Point
  savedFor : String → Option Point

namespace Desktop

def configured (d : Desktop) (e : DisplayEntry) : Option Point :=
  d.outputRule e.connector e.identity

/-- Where an output is pinned at first: the saved position where none is configured. -/
def remembered (d : Desktop) (e : DisplayEntry) : Option Point :=
  (d.configured e).or (d.savedFor e.identity)

def enabled (d : Desktop) : List DisplayEntry := d.entries.filter (·.enabled)

def pinned (d : Desktop) (position : DisplayEntry → Option Point) : List (Nat × Point) :=
  d.entries.filterMap fun e => (position e).map (e.id, ·)

def sizes (d : Desktop) : List (Nat × (Int32 × Int32)) := d.entries.map fun e => (e.id, e.size)

/-- A placed output as a rectangle; one whose size is not known is empty. -/
def rectOf (sizes : List (Nat × (Int32 × Int32))) : Nat × Point → LayoutRect
  | (id, p) =>
    let size := (sizes.lookup id).getD (0, 0)
    ⟨p.1, p.2, size.1, size.2⟩

def rectsOf (d : Desktop) (placement : List (Nat × Point)) : List LayoutRect :=
  placement.map (rectOf d.sizes)

def handPlaced (d : Desktop) : Bool :=
  d.entries.any fun e => e.enabled && (d.configured e).isSome

end Desktop

/-- Left to right in insertion order; any output with a position keeps it and is skipped. -/
def autoLayout (checked : Bool) (pinned : List (Nat × Point)) :
    Int32 → List DisplayEntry → Option (List (Nat × Point))
  | _, [] => some []
  | x, e :: rest =>
    match pinned.lookup e.id with
    | some p => do
      let later ← autoLayout checked pinned x rest
      some ((e.id, p) :: later)
    | none => do
      let next ← add checked x e.size.1
      let later ← autoLayout checked pinned next rest
      some ((e.id, (x, 0)) :: later)

def relayout (checked : Bool) (d : Desktop) : Option (List (Nat × Point)) := do
  let first ← autoLayout checked (d.pinned d.remembered) 0 d.enabled
  let overlaps ← layoutOverlaps checked (d.rectsOf first)
  let placement ← (if overlaps then autoLayout checked (d.pinned d.configured) 0 d.enabled
    else some first)
  if d.handPlaced then some placement
  else do
    let rects ← normalizeLayout checked (d.rectsOf placement)
    some ((placement.zip rects).map fun (placed, r) => (placed.1, (r.x, r.y)))

/-! ## The overlap check -/

namespace LayoutRect

instance (a b : LayoutRect) : Decidable (a.Overlaps b) :=
  decidable_of_iff ((a.near .x < b.far .x ∧ b.near .x < a.far .x) ∧
      (a.near .y < b.far .y ∧ b.near .y < a.far .y)) <| by
    constructor
    · intro ⟨x, y⟩ axis
      cases axis with
      | x => exact x
      | y => exact y
    · intro overlaps
      exact ⟨overlaps .x, overlaps .y⟩

def Ends (r : LayoutRect) (axis : Axis) : Prop := r.far axis < 2147483648

/-- The ends that the check of two rectangles reads fit. -/
def SumsFit (a b : LayoutRect) : Prop :=
  b.Ends .x ∧ (a.near .x < b.far .x → a.Ends .x ∧ (b.near .x < a.far .x →
    b.Ends .y ∧ (a.near .y < b.far .y → a.Ends .y)))

end LayoutRect

def Clear (rects : List LayoutRect) : Prop := rects.Pairwise fun a b => ¬a.Overlaps b

instance (rects : List LayoutRect) : Decidable (Clear rects) :=
  inferInstanceAs (Decidable (rects.Pairwise fun a b => ¬a.Overlaps b))

/-- The ends fit that a check of one rectangle against others reads. -/
def EachFits (a : LayoutRect) : List LayoutRect → Prop
  | [] => True
  | b :: rest => a.SumsFit b ∧ (¬a.Overlaps b → EachFits a rest)

/-- The ends fit that the check of a layout reads. -/
def ChecksFit : List LayoutRect → Prop
  | [] => True
  | a :: rest => EachFits a rest ∧ ((∀ b ∈ rest, ¬a.Overlaps b) → ChecksFit rest)

/-- The sizes of a list of rectangles are non-negative. -/
def AllSized (rects : List LayoutRect) : Prop := ∀ axis, Sized axis rects

variable {checked : Bool} {rects : List LayoutRect} {a b r : LayoutRect} {found : Bool}

theorem end_some {axis : Axis} (size : 0 ≤ (r.size axis).toInt) (fits : r.Ends axis) :
    ∃ c, add checked (r.place axis) (r.size axis) = some c ∧ c.toInt = r.far axis := by
  have bound := toInt_bounds (r.place axis)
  exact add_some (by omega) fits

theorem ends_of_end {axis : Axis} {c : Int32}
    (made : add true (r.place axis) (r.size axis) = some c) :
    c.toInt = r.far axis ∧ r.Ends axis := by
  have exact := toInt_of_add made
  have bound := (toInt_bounds c).2
  rw [exact] at bound
  exact ⟨exact, bound⟩

theorem clashes_some (sizes : ∀ axis, 0 ≤ (a.size axis).toInt ∧ 0 ≤ (b.size axis).toInt)
    (fits : a.SumsFit b) : clashes checked a b = some (decide (a.Overlaps b)) := by
  rcases fits with ⟨endB, rest⟩
  rcases @end_some checked _ _ (sizes .x).2 endB with ⟨bx, isBx, bxInt⟩
  rw [place, size] at isBx
  rw [clashes, isBx, Option.bind_eq_bind, Option.bind_some]
  by_cases beforeX : a.near .x < b.far .x
  · rcases rest beforeX with ⟨endA, rest⟩
    rcases @end_some checked _ _ (sizes .x).1 endA with ⟨ax, isAx, axInt⟩
    rw [place, size] at isAx
    rw [if_pos (by rw [Int32.lt_iff_toInt_lt, bxInt]; exact beforeX), isAx, Option.bind_some]
    by_cases afterX : b.near .x < a.far .x
    · rcases rest afterX with ⟨endB, rest⟩
      rcases @end_some checked _ _ (sizes .y).2 endB with ⟨bY, isBy, byInt⟩
      rw [place, size] at isBy
      rw [if_pos (by rw [Int32.lt_iff_toInt_lt, axInt]; exact afterX), isBy, Option.bind_some]
      by_cases beforeY : a.near .y < b.far .y
      · rcases @end_some checked _ _ (sizes .y).1 (rest beforeY) with ⟨ay, isAy, ayInt⟩
        rw [place, size] at isAy
        rw [if_pos (by rw [Int32.lt_iff_toInt_lt, byInt]; exact beforeY), isAy, Option.bind_some]
        congr 1
        rw [decide_eq_decide, Int32.lt_iff_toInt_lt, ayInt]
        constructor
        · intro afterY axis
          cases axis with
          | x => exact ⟨beforeX, afterX⟩
          | y => exact ⟨beforeY, afterY⟩
        · exact fun overlaps => (overlaps .y).2
      · rw [if_neg (by rw [Int32.lt_iff_toInt_lt, byInt]; exact beforeY),
          decide_eq_false fun overlaps => beforeY (overlaps .y).1]
    · rw [if_neg (by rw [Int32.lt_iff_toInt_lt, axInt]; exact afterX),
        decide_eq_false fun overlaps => afterX (overlaps .x).2]
  · rw [if_neg (by rw [Int32.lt_iff_toInt_lt, bxInt]; exact beforeX),
      decide_eq_false fun overlaps => beforeX (overlaps .x).1]

/-- Where overflow is checked, a check that comes to an answer has read only ends that fit. -/
theorem sumsFit_of_clashes (made : clashes true a b = some found) : a.SumsFit b := by
  rw [clashes, Option.bind_eq_bind, Option.bind_eq_some_iff] at made
  rcases made with ⟨bx, isBx, made⟩
  rcases @ends_of_end b .x _ isBx with ⟨bxInt, endB⟩
  refine ⟨endB, fun beforeX => ?_⟩
  rw [if_pos (by rw [Int32.lt_iff_toInt_lt, bxInt]; exact beforeX),
    Option.bind_eq_some_iff] at made
  rcases made with ⟨ax, isAx, made⟩
  rcases @ends_of_end a .x _ isAx with ⟨axInt, endA⟩
  refine ⟨endA, fun afterX => ?_⟩
  rw [if_pos (by rw [Int32.lt_iff_toInt_lt, axInt]; exact afterX),
    Option.bind_eq_some_iff] at made
  rcases made with ⟨bY, isBy, made⟩
  rcases @ends_of_end b .y _ isBy with ⟨byInt, endB⟩
  refine ⟨endB, fun beforeY => ?_⟩
  rw [if_pos (by rw [Int32.lt_iff_toInt_lt, byInt]; exact beforeY),
    Option.bind_eq_some_iff] at made
  rcases made with ⟨ay, isAy, made⟩
  exact (@ends_of_end a .y _ isAy).2

theorem anyClash_some {rest : List LayoutRect} (sizes : AllSized (a :: rest))
    (fits : EachFits a rest) :
    anyClash checked a rest = some (decide (∃ b ∈ rest, a.Overlaps b)) := by
  induction rest with
  | nil => simp [anyClash]
  | cons b rest induction =>
    rcases fits with ⟨sums, later⟩
    have sized := @clashes_some checked _ _ (fun axis =>
      ⟨sizes axis a List.mem_cons_self, sizes axis b (by simp)⟩) sums
    rw [anyClash, sized, Option.bind_eq_bind, Option.bind_some]
    by_cases overlaps : a.Overlaps b
    · simp [overlaps]
    · rw [decide_eq_false overlaps, if_neg Bool.false_ne_true, induction (fun axis r member => by
        rcases List.mem_cons.mp member with rfl | member
        · exact sizes axis r List.mem_cons_self
        · exact sizes axis r (by simp [member])) (later overlaps)]
      simp [overlaps]

theorem eachFits_of_anyClash {rest : List LayoutRect} (sizes : AllSized (a :: rest))
    (made : anyClash true a rest = some found) : EachFits a rest := by
  induction rest with
  | nil => exact trivial
  | cons b rest induction =>
    rw [anyClash, Option.bind_eq_bind, Option.bind_eq_some_iff] at made
    rcases made with ⟨here, isHere, made⟩
    have sums := sumsFit_of_clashes isHere
    refine ⟨sums, fun apart => ?_⟩
    rw [clashes_some (fun axis => ⟨sizes axis a List.mem_cons_self, sizes axis b (by simp)⟩) sums,
      decide_eq_false apart] at isHere
    rw [← Option.some.inj isHere, if_neg Bool.false_ne_true] at made
    exact induction (fun axis r member => by
      rcases List.mem_cons.mp member with rfl | member
      · exact sizes axis r List.mem_cons_self
      · exact sizes axis r (by simp [member])) made

theorem layoutOverlaps_some (sizes : AllSized rects) (fits : ChecksFit rects) :
    layoutOverlaps checked rects = some (decide (¬Clear rects)) := by
  induction rects with
  | nil => simp [layoutOverlaps, Clear]
  | cons a rest induction =>
    rcases fits with ⟨each, later⟩
    rw [layoutOverlaps, anyClash_some sizes each, Option.bind_eq_bind, Option.bind_some]
    by_cases overlaps : ∃ b ∈ rest, a.Overlaps b
    · rw [decide_eq_true overlaps, if_pos rfl, decide_eq_true]
      intro clear
      rcases overlaps with ⟨b, member, overlaps⟩
      exact (List.pairwise_cons.mp clear).1 b member overlaps
    · have apart : ∀ b ∈ rest, ¬a.Overlaps b := fun b member overlapping =>
        overlaps ⟨b, member, overlapping⟩
      rw [decide_eq_false overlaps, if_neg Bool.false_ne_true,
        induction (fun axis r member => sizes axis r (List.mem_cons_of_mem _ member))
          (later apart)]
      congr 1
      rw [decide_eq_decide, Clear, Clear, List.pairwise_cons]
      exact not_congr ⟨fun clear => ⟨apart, clear⟩, fun clear => clear.2⟩

theorem checksFit_of_layoutOverlaps (sizes : AllSized rects)
    (made : layoutOverlaps true rects = some found) : ChecksFit rects := by
  induction rects with
  | nil => exact trivial
  | cons a rest induction =>
    rw [layoutOverlaps, Option.bind_eq_bind, Option.bind_eq_some_iff] at made
    rcases made with ⟨here, isHere, made⟩
    have each := eachFits_of_anyClash sizes isHere
    refine ⟨each, fun apart => ?_⟩
    rw [anyClash_some sizes each, decide_eq_false fun ⟨b, member, overlaps⟩ =>
      apart b member overlaps] at isHere
    rw [← Option.some.inj isHere, if_neg Bool.false_ne_true] at made
    exact induction (fun axis r member => sizes axis r (List.mem_cons_of_mem _ member)) made

/-! ## The row -/

/-- Where outputs are placed, with the free ones in a row from `x` on. -/
def placed (pin : DisplayEntry → Option Point) : Int → List DisplayEntry → List LayoutRect
  | _, [] => []
  | x, e :: rest =>
    match pin e with
    | some p => ⟨p.1, p.2, e.size.1, e.size.2⟩ :: placed pin x rest
    | none => ⟨Int32.ofInt x, 0, e.size.1, e.size.2⟩ :: placed pin (x + e.size.1.toInt) rest

def rowEnd (pin : DisplayEntry → Option Point) : Int → List DisplayEntry → Int
  | x, [] => x
  | x, e :: rest =>
    match pin e with
    | some _ => rowEnd pin x rest
    | none => rowEnd pin (x + e.size.1.toInt) rest

/-- Every output of a list has a positive size. -/
def Positive (entries : List DisplayEntry) : Prop :=
  ∀ e ∈ entries, 0 < e.size.1.toInt ∧ 0 < e.size.2.toInt

section Row

variable {pin : DisplayEntry → Option Point} {entries : List DisplayEntry} {x : Int}

theorem le_rowEnd (positive : Positive entries) : x ≤ rowEnd pin x entries := by
  induction entries generalizing x with
  | nil => exact le_refl x
  | cons e rest induction =>
    have later : Positive rest := fun o member => positive o (List.mem_cons_of_mem _ member)
    have here := positive e List.mem_cons_self
    rw [rowEnd]
    split
    · exact induction later
    · exact le_trans (by omega) (induction later)

theorem placed_sized (positive : Positive entries) : AllSized (placed pin x entries) := by
  induction entries generalizing x with
  | nil =>
    intro axis r member
    cases member
  | cons e rest induction =>
    have later : Positive rest := fun o member => positive o (List.mem_cons_of_mem _ member)
    have here := positive e List.mem_cons_self
    intro axis r member
    rw [placed] at member
    split at member <;> rcases List.mem_cons.mp member with rfl | member
    · cases axis
      · exact le_of_lt here.1
      · exact le_of_lt here.2
    · exact induction later axis r member
    · cases axis
      · exact le_of_lt here.1
      · exact le_of_lt here.2
    · exact induction later axis r member

theorem length_placed : (placed pin x entries).length = entries.length := by
  induction entries generalizing x with
  | nil => rfl
  | cons e rest induction =>
    rw [placed]
    split <;> simp [induction]

variable {pinned : List (Nat × Point)} {sizes : List (Nat × (Int32 × Int32))}

/-- What the placements of some outputs come to: their numbers, and their rectangles. -/
structure Places (pin : DisplayEntry → Option Point) (x : Int) (entries : List DisplayEntry)
    (sizes : List (Nat × (Int32 × Int32))) (out : List (Nat × Point)) : Prop where
  ids : out.map (·.1) = entries.map (·.id)
  rects : out.map (Desktop.rectOf sizes) = placed pin x entries

theorem rectOf_eq {e : DisplayEntry} {p : Point} (sized : sizes.lookup e.id = some e.size) :
    Desktop.rectOf sizes (e.id, p) = ⟨p.1, p.2, e.size.1, e.size.2⟩ := by
  simp only [Desktop.rectOf, sized, Option.getD_some]

theorem autoLayout_some {start : Int32} (pins : ∀ e ∈ entries, pinned.lookup e.id = pin e)
    (sized : ∀ e ∈ entries, sizes.lookup e.id = some e.size) (positive : Positive entries)
    (nonneg : 0 ≤ start.toInt) (fits : rowEnd pin start.toInt entries < 2147483648) :
    ∃ out, autoLayout checked pinned start entries = some out ∧
      Places pin start.toInt entries sizes out := by
  induction entries generalizing start with
  | nil => exact ⟨[], rfl, rfl, rfl⟩
  | cons e rest induction =>
    have here := positive e List.mem_cons_self
    have pinsRest : ∀ o ∈ rest, pinned.lookup o.id = pin o := fun o member =>
      pins o (List.mem_cons_of_mem _ member)
    have sizedRest : ∀ o ∈ rest, sizes.lookup o.id = some o.size := fun o member =>
      sized o (List.mem_cons_of_mem _ member)
    have positiveRest : Positive rest := fun o member =>
      positive o (List.mem_cons_of_mem _ member)
    have pinHere := pins e List.mem_cons_self
    rw [rowEnd] at fits
    rw [autoLayout, pinHere]
    cases isPin : pin e with
    | some p =>
      rw [isPin] at fits
      rcases induction pinsRest sizedRest positiveRest nonneg fits with ⟨out, made, places⟩
      refine ⟨(e.id, p) :: out, ?_, ?_, ?_⟩
      · rw [made]
        rfl
      · rw [List.map_cons, List.map_cons, places.ids]
      · rw [List.map_cons, placed, isPin, places.rects, rectOf_eq (sized e List.mem_cons_self)]
    | none =>
      rw [isPin] at fits
      have bound : start.toInt + e.size.1.toInt < 2147483648 :=
        lt_of_le_of_lt (le_rowEnd positiveRest) fits
      rcases @add_some checked start e.size.1 (by omega) bound with
        ⟨next, isNext, nextInt⟩
      rw [← nextInt] at fits
      rcases induction pinsRest sizedRest positiveRest (by omega) fits with
        ⟨out, made, places⟩
      refine ⟨(e.id, (start, 0)) :: out, ?_, ?_, ?_⟩
      · simp only [isNext, made, Option.bind_eq_bind, Option.bind_some]
      · rw [List.map_cons, List.map_cons, places.ids]
      · rw [List.map_cons, placed, isPin, places.rects, rectOf_eq (sized e List.mem_cons_self),
          nextInt, Int32.ofInt_toInt]

theorem rowEnd_of_autoLayout {start : Int32} {out : List (Nat × Point)}
    (pins : ∀ e ∈ entries, pinned.lookup e.id = pin e)
    (made : autoLayout true pinned start entries = some out) :
    rowEnd pin start.toInt entries < 2147483648 := by
  induction entries generalizing start out with
  | nil => exact (toInt_bounds start).2
  | cons e rest induction =>
    have pinsRest : ∀ o ∈ rest, pinned.lookup o.id = pin o := fun o member =>
      pins o (List.mem_cons_of_mem _ member)
    have pinHere := pins e List.mem_cons_self
    rw [autoLayout, pinHere] at made
    rw [rowEnd]
    cases isPin : pin e with
    | some p =>
      simp only [isPin, Option.bind_eq_bind, Option.bind_eq_some_iff] at made
      rcases made with ⟨later, isLater, -⟩
      exact induction pinsRest isLater
    | none =>
      simp only [isPin, Option.bind_eq_bind, Option.bind_eq_some_iff] at made
      rcases made with ⟨next, isNext, later, isLater, -⟩
      rw [← toInt_of_add isNext]
      exact induction pinsRest isLater

theorem placed_clear (free : ∀ e ∈ entries, pin e = none) (positive : Positive entries)
    (nonneg : 0 ≤ x) (fits : rowEnd pin x entries < 2147483648) :
    Clear (placed pin x entries) ∧ ∀ r ∈ placed pin x entries, x ≤ r.near .x := by
  induction entries generalizing x with
  | nil => exact ⟨.nil, fun r member => by cases member⟩
  | cons e rest induction =>
    have here := positive e List.mem_cons_self
    have later : Positive rest := fun o member => positive o (List.mem_cons_of_mem _ member)
    have isFree := free e List.mem_cons_self
    rw [rowEnd, isFree] at fits
    dsimp only at fits
    have bound := lt_of_le_of_lt (le_rowEnd later) fits
    rcases induction (fun o member => free o (List.mem_cons_of_mem _ member)) later (by omega)
      fits with ⟨clear, starts⟩
    have exact : (Int32.ofInt x).toInt = x := by
      rw [Int32.toInt_ofInt]
      exact Int.bmod_eq_of_le (by simp; omega) (by simp; omega)
    rw [placed, isFree]
    constructor
    · refine .cons (fun r member overlaps => ?_) clear
      have after := starts r member
      have before : r.near .x < (Int32.ofInt x).toInt + e.size.1.toInt := (overlaps .x).2
      omega
    · intro r member
      rcases List.mem_cons.mp member with rfl | member
      · rw [near, place, exact]
      · have := starts r member
        omega

end Row

/-! ## The desktop -/

theorem lookup_filterMap {β : Type} {entries : List DisplayEntry} {e : DisplayEntry}
    (distinct : (entries.map (·.id)).Nodup) (position : DisplayEntry → Option β)
    (member : e ∈ entries) :
    (entries.filterMap fun e => (position e).map (e.id, ·)).lookup e.id = position e := by
  have absent : ∀ (rest : List DisplayEntry) (id : Nat), id ∉ rest.map (·.id) →
      (rest.filterMap fun e => (position e).map (e.id, ·)).lookup id = none := by
    intro rest id fresh
    rw [List.lookup_eq_none_iff]
    intro p inPairs
    rcases List.mem_filterMap.mp inPairs with ⟨o, inRest, isPair⟩
    rcases Option.map_eq_some_iff.mp isPair with ⟨v, -, rfl⟩
    have inIds : o.id ∈ rest.map (·.id) := List.mem_map_of_mem inRest
    exact bne_iff_ne.mpr fun (same : id = o.id) => fresh (same ▸ inIds)
  induction entries with
  | nil => cases member
  | cons head rest induction =>
    rw [List.map_cons, List.nodup_cons] at distinct
    rcases List.mem_cons.mp member with rfl | later
    · cases isAt : position e with
      | none => rw [List.filterMap_cons_none (by rw [isAt]; rfl), absent rest e.id distinct.1]
      | some v =>
        rw [List.filterMap_cons_some (b := (e.id, v)) (by rw [isAt]; rfl),
          List.lookup_cons_self]
    · have different : e.id ≠ head.id := fun same =>
        distinct.1 (same ▸ List.mem_map_of_mem later)
      cases isAt : position head with
      | none =>
        rw [List.filterMap_cons_none (by rw [isAt]; rfl)]
        exact induction distinct.2 later
      | some v =>
        rw [List.filterMap_cons_some (b := (head.id, v)) (by rw [isAt]; rfl),
          List.lookup_cons, beq_false_of_ne different]
        exact induction distinct.2 later

namespace Desktop

variable {d : Desktop} {placement : List (Nat × Point)}

theorem pinned_lookup (position : DisplayEntry → Option Point) :
    ∀ e ∈ d.enabled, (d.pinned position).lookup e.id = position e := fun _ member =>
  lookup_filterMap d.distinct position (List.mem_of_mem_filter member)

theorem sizes_lookup : ∀ e ∈ d.enabled, d.sizes.lookup e.id = some e.size := by
  intro e member
  have found := lookup_filterMap d.distinct (some ·.size)
    (List.mem_of_mem_filter member)
  simp only [Option.map_some] at found
  rw [List.filterMap_eq_map'] at found
  exact found

/-- Where the outputs are with the configured and the saved positions. -/
def first (d : Desktop) : List LayoutRect := placed d.remembered 0 d.enabled

/-- Where the outputs are with the configured positions alone. -/
def afresh (d : Desktop) : List LayoutRect := placed d.configured 0 d.enabled

/-- The placement that stands: the first one, unless it overlaps. -/
def standing (d : Desktop) : List LayoutRect := if Clear d.first then d.first else d.afresh

/-- No sum that laying the desktop out forms is past 32 bits. -/
structure InRange (d : Desktop) : Prop where
  row : rowEnd d.remembered 0 d.enabled < 2147483648
  checks : ChecksFit d.first
  again : ¬Clear d.first → rowEnd d.configured 0 d.enabled < 2147483648
  normal : d.handPlaced = false → ∀ axis, Fits axis d.standing

theorem standing_sized (positive : Positive d.enabled) : AllSized d.standing := by
  rw [standing]
  split_ifs
  · exact placed_sized positive
  · exact placed_sized positive

theorem rectsOf_zip (normal : LayoutRect → LayoutRect)
    (keeps : ∀ r axis, (normal r).size axis = r.size axis) :
    d.rectsOf ((placement.zip ((d.rectsOf placement).map normal)).map fun (placed, r) =>
      (placed.1, (r.x, r.y))) = (d.rectsOf placement).map normal := by
  induction placement with
  | nil => rfl
  | cons head rest induction =>
    simp only [rectsOf, List.map_cons, List.zip_cons_cons] at induction ⊢
    rw [induction]
    congr 1
    apply ext_axes
    · intro axis
      cases axis <;> rfl
    · intro axis
      rw [keeps]
      cases axis <;> rfl

theorem ids_zip {rects : List LayoutRect} (same : rects.length = placement.length) :
    ((placement.zip rects).map fun (placed, r) => (placed.1, ((r.x, r.y) : Point))).map (·.1) =
      placement.map (·.1) := by
  rw [List.map_map]
  have fst : (placement.zip rects).map Prod.fst = placement := List.map_fst_zip (by omega)
  calc (placement.zip rects).map _
      _ = ((placement.zip rects).map (·.1)).map (·.1) := by rw [List.map_map]; rfl
      _ = _ := by rw [fst]

/-- What is found once the placement that stands is known. -/
def finish (checked : Bool) (d : Desktop) (placement : List (Nat × Point)) :
    Option (List (Nat × Point)) :=
  if d.handPlaced then some placement
  else do
    let rects ← normalizeLayout checked (d.rectsOf placement)
    some ((placement.zip rects).map fun (placed, r) => (placed.1, (r.x, r.y)))

/-- In range a desktop is laid out where its standing placement says, normalised unless a human
placed an output. -/
theorem relayout_some (positive : Positive d.enabled) (range : d.InRange) :
    ∃ out, relayout checked d = some out ∧ out.map (·.1) = d.enabled.map (·.id) ∧
      d.rectsOf out = if d.handPlaced then d.standing else
        d.standing.map (normal d.standing) := by
  rcases @autoLayout_some checked _ _ _ _ 0 (pinned_lookup d.remembered) sizes_lookup positive
      (by decide) range.row with ⟨out, made, places⟩
  have firstRects : d.rectsOf out = d.first := places.rects
  have check : layoutOverlaps checked d.first = some (decide (¬Clear d.first)) :=
    layoutOverlaps_some (placed_sized positive) range.checks
  have placed : ∃ placement, (if decide (¬Clear d.first) then
        autoLayout checked (d.pinned d.configured) 0 d.enabled else some out) = some placement ∧
      placement.map (·.1) = d.enabled.map (·.id) ∧ d.rectsOf placement = d.standing := by
    by_cases clear : Clear d.first
    · rw [standing, if_pos clear, decide_eq_false (not_not.mpr clear), if_neg Bool.false_ne_true]
      exact ⟨out, rfl, places.ids, firstRects⟩
    · rw [standing, if_neg clear, decide_eq_true clear, if_pos rfl]
      rcases @autoLayout_some checked _ _ _ _ 0 (pinned_lookup d.configured) sizes_lookup positive
          (by decide) (range.again clear) with ⟨out, made, places⟩
      exact ⟨out, made, places.ids, places.rects⟩
  rcases placed with ⟨placement, isPlaced, ids, rects⟩
  have made' : relayout checked d = finish checked d placement := by
    simp only [relayout, made, firstRects, check, isPlaced, Option.bind_eq_bind,
      Option.bind_some]
    rfl
  rw [made', finish]
  cases hand : d.handPlaced with
  | true => exact ⟨placement, rfl, ids, rects⟩
  | false =>
    have normalised := @normalizeLayout_some _ (standing_sized positive) (range.normal hand)
        checked
    rw [if_neg Bool.false_ne_true, if_neg Bool.false_ne_true, rects, normalised,
      Option.bind_eq_bind, Option.bind_some]
    refine ⟨_, rfl, ?_, ?_⟩
    · rw [ids_zip, ids]
      rw [List.length_map, ← rects, rectsOf, List.length_map]
    · rw [← rects]
      exact rectsOf_zip _ fun _ _ => size_normal

theorem inRange_of_relayout {out : List (Nat × Point)} (positive : Positive d.enabled)
    (made : relayout true d = some out) : d.InRange := by
  rw [relayout, Option.bind_eq_bind, Option.bind_eq_some_iff] at made
  rcases made with ⟨firstOut, isFirst, made⟩
  have row := rowEnd_of_autoLayout (pinned_lookup d.remembered) isFirst
  rcases @autoLayout_some true _ _ _ _ 0 (pinned_lookup d.remembered) sizes_lookup positive
      (by decide) row with ⟨out', same, places⟩
  rw [isFirst, Option.some.injEq] at same
  subst same
  have firstRects : d.rectsOf firstOut = d.first := places.rects
  rw [firstRects, Option.bind_eq_bind, Option.bind_eq_some_iff] at made
  rcases made with ⟨overlaps, isCheck, made⟩
  have checks : ChecksFit d.first := checksFit_of_layoutOverlaps (placed_sized positive) isCheck
  have check : layoutOverlaps true d.first = some (decide (¬Clear d.first)) :=
    layoutOverlaps_some (placed_sized positive) checks
  rw [check, Option.some.injEq] at isCheck
  rw [← isCheck, Option.bind_eq_bind, Option.bind_eq_some_iff] at made
  rcases made with ⟨placement, isPlaced, made⟩
  have again : ¬Clear d.first → rowEnd d.configured 0 d.enabled < 2147483648 := by
    intro clear
    rw [decide_eq_true clear, if_pos rfl] at isPlaced
    exact rowEnd_of_autoLayout (pinned_lookup d.configured) isPlaced
  refine ⟨row, checks, again, fun hand => ?_⟩
  rw [hand, if_neg Bool.false_ne_true, Option.bind_eq_some_iff] at made
  rcases made with ⟨rects, normalised, -⟩
  have stands : d.rectsOf placement = d.standing := by
    by_cases clear : Clear d.first
    · rw [decide_eq_false (not_not.mpr clear), if_neg Bool.false_ne_true,
        Option.some.injEq] at isPlaced
      rw [standing, if_pos clear, ← isPlaced, firstRects]
    · rw [decide_eq_true clear, if_pos rfl] at isPlaced
      rcases @autoLayout_some true _ _ _ _ 0 (pinned_lookup d.configured) sizes_lookup positive
          (by decide) (again clear) with ⟨out', same, places⟩
      rw [isPlaced, Option.some.injEq] at same
      rw [standing, if_neg clear, same]
      exact places.rects
  rw [stands] at normalised
  exact fits_of_normalizeLayout (standing_sized positive) normalised

/-- Every enabled output is mapped, and no two of them overlap. -/
def LaidOut (d : Desktop) (out : List (Nat × Point)) : Prop :=
  out.map (·.1) = d.enabled.map (·.id) ∧ Clear (d.rectsOf out)

/-- Outputs none of which a human placed stand clear of each other once laid out afresh. -/
theorem afresh_clear (positive : Positive d.enabled) (hand : d.handPlaced = false)
    (fits : rowEnd d.configured 0 d.enabled < 2147483648) : Clear d.afresh := by
  refine (placed_clear (fun e member => ?_) positive (le_refl 0) fits).1
  rcases List.mem_filter.mp member with ⟨isEntry, isEnabled⟩
  have free := List.any_eq_false.mp hand e isEntry
  rw [isEnabled, Bool.true_and, Option.not_isSome_iff_eq_none] at free
  exact free

theorem normal_clear {rects : List LayoutRect} (sized : AllSized rects)
    (fits : ∀ axis, Fits axis rects) (clear : Clear rects) :
    Clear (rects.map (normal rects)) := by
  rw [Clear, List.pairwise_map]
  exact clear.imp_of_mem fun first second apart => apart_normal sized fits first second apart

/-- A desktop is laid out without overlap, whether the build checks overflow or not, exactly
where its sums fit and its outputs are clear of each other, with the saved positions or without
them. -/
theorem relayout_iff (positive : Positive d.enabled) :
    (∀ checked, ∃ out, relayout checked d = some out ∧ d.LaidOut out) ↔
      d.InRange ∧ (Clear d.first ∨ Clear d.afresh) := by
  constructor
  · intro all
    rcases all true with ⟨out, made, -, clear⟩
    have range := inRange_of_relayout positive made
    refine ⟨range, ?_⟩
    by_cases clearFirst : Clear d.first
    · exact .inl clearFirst
    · refine .inr ?_
      cases hand : d.handPlaced with
      | true =>
        rcases @relayout_some true _ positive range with ⟨out', same, -, stands⟩
        rw [made, Option.some.injEq] at same
        rw [hand, if_pos rfl, standing, if_neg clearFirst] at stands
        rw [← stands, ← same]
        exact clear
      | false => exact afresh_clear positive hand (range.again clearFirst)
  · intro ⟨range, clear⟩ checked
    rcases @relayout_some checked _ positive range with ⟨out, made, ids, stands⟩
    refine ⟨out, made, ids, ?_⟩
    have standsClear : Clear d.standing := by
      rw [standing]
      split_ifs with clearFirst
      · exact clearFirst
      · exact clear.resolve_left clearFirst
    rw [stands]
    cases hand : d.handPlaced with
    | true => exact standsClear
    | false => exact normal_clear (standing_sized positive) (range.normal hand) standsClear

/-- Two enabled outputs of 1920 by 1080, the first of them configured at the origin. -/
def onePlaced : Desktop where
  entries := [⟨1, "DP-1", "left", true, (1920, 1080)⟩, ⟨2, "DP-2", "right", true, (1920, 1080)⟩]
  distinct := by decide
  outputRule connector _ := if connector = "DP-1" then some (0, 0) else none
  savedFor _ := none

theorem onePlaced_positive : Positive onePlaced.enabled := by
  intro e member
  rcases List.mem_cons.mp member with rfl | rest
  · decide
  · rw [List.mem_singleton.mp rest]
    decide

theorem relayout_iff_onePlaced : Positive onePlaced.enabled ∧
    ((∀ checked, ∃ out, relayout checked onePlaced = some out ∧ onePlaced.LaidOut out) ↔
      onePlaced.InRange ∧ (Clear onePlaced.first ∨ Clear onePlaced.afresh)) :=
  ⟨onePlaced_positive, relayout_iff onePlaced_positive⟩

/-- The free output is put at the start of the row, where the configured one is. -/
theorem onePlaced_overlaps : ¬∀ d : Desktop, Positive d.enabled →
    ((d.enabled.filter fun e => (d.configured e).isSome).Pairwise fun e o =>
      ∀ p q, d.configured e = some p → d.configured o = some q →
        ¬(⟨p.1, p.2, e.size.1, e.size.2⟩ : LayoutRect).Overlaps
          ⟨q.1, q.2, o.size.1, o.size.2⟩) →
    ∀ checked, ∃ out, relayout checked d = some out ∧ d.LaidOut out := by
  intro all
  rcases all onePlaced onePlaced_positive (by
    have one : (onePlaced.enabled.filter fun e => (onePlaced.configured e).isSome) =
        [⟨1, "DP-1", "left", true, (1920, 1080)⟩] := by
      decide
    rw [one]
    exact List.pairwise_singleton _ _) false with ⟨out, made, laidOut⟩
  have both : relayout false onePlaced = some [(1, (0, 0)), (2, (0, 0))] := by
    decide +kernel
  rw [both] at made
  rw [← Option.some.inj made] at laidOut
  exact absurd laidOut.2 (by decide +kernel)

end Desktop

end EclipseOS.Abyss.OutputLayout
