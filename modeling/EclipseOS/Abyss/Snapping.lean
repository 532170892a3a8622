import EclipseOS.Abyss.Tiling
import Mathlib.Data.Int.ConditionallyCompleteOrder
import Mathlib.Data.List.MinMax

/-! # Snapping

How far a window that is moved or resized is pulled to an edge close by. -/

namespace EclipseOS.Abyss.Snapping

structure Edges where
  left : Bool
  right : Bool
  top : Bool
  bottom : Bool
  deriving DecidableEq

def Edges.NONE : Edges := ⟨false, false, false, false⟩

/-- How far `lo..hi` hangs outside `ulo..uhi`. -/
def overflow (lo hi ulo uhi : Int) : Int := max (ulo - lo) 0 + max (hi - uhi) 0

/-- The frame's extent after a shift by `d`. -/
def shifted (lo hi : Int) (loMoves both : Bool) (d : Int) : Int × Int :=
  match both, loMoves with
  | true, _ => (lo + d, hi + d)
  | false, true => (lo + d, hi)
  | false, false => (lo, hi + d)

/-- The shift leaves something of the frame, no further outside than it was. -/
def allowed (lo hi ulo uhi : Int) (loMoves both : Bool) (d : Int) : Bool :=
  (shifted lo hi loMoves both d).1 < (shifted lo hi loMoves both d).2 ∧
    overflow (shifted lo hi loMoves both d).1 (shifted lo hi loMoves both d).2 ulo uhi ≤
      overflow lo hi ulo uhi

/-- Keeps a shift that is nearer than the best so far. -/
def consider (lo hi ulo uhi dist : Int) (loMoves both : Bool) (best : Option Int) (d : Int) :
    Option Int :=
  if dist < |d| ∨ best.any (|·| ≤ |d|) then best
  else if allowed lo hi ulo uhi loMoves both d then some d
  else best

def each (lo hi ulo uhi dist : Int) (loMoves hiMoves both : Bool) (best : Option Int) (t : Int) :
    Option Int :=
  let best := if loMoves then consider lo hi ulo uhi dist loMoves both best (t - lo) else best
  if hiMoves then consider lo hi ulo uhi dist loMoves both best (t - hi) else best

/-- Snaps one axis: the shift to apply to the moving edges, zero if there is none. -/
def snapAxis (lo hi ulo uhi : Int) (targets : List Int) (dist : Int)
    (loMoves hiMoves both : Bool) : Int :=
  ((ulo :: uhi :: targets).foldl (each lo hi ulo uhi dist loMoves hiMoves both) none).getD 0

/-- The shift that snaps `frame`; `all` is a move, else `edges` are dragged. The vertical pass
sees a moved frame as already shifted. -/
def snapOffset (frame usable : Rectangle) (others : List Rectangle) (dist : Int) (edges : Edges)
    (all : Bool) : Int × Int :=
  if dist ≤ 0 then (0, 0)
  else
    let l := frame.x
    let t := frame.y
    let r := l + frame.w
    let b := t + frame.h
    let nearY := others.filter fun o => o.y < b + dist ∧ o.y + o.h > t - dist
    let dx :=
      if all || edges.left || edges.right then
        snapAxis l r usable.x (usable.x + usable.w) (nearY.flatMap fun o => [o.x, o.x + o.w])
          dist (all || edges.left) (all || edges.right) all
      else 0
    let l' := if all then l + dx else l
    let r' := if all then r + dx else r
    let nearX := others.filter fun o => o.x < r' + dist ∧ o.x + o.w > l' - dist
    let dy :=
      if all || edges.top || edges.bottom then
        snapAxis t b usable.y (usable.y + usable.h) (nearX.flatMap fun o => [o.y, o.y + o.h])
          dist (all || edges.top) (all || edges.bottom) all
      else 0
    (dx, dy)

example : snapOffset ⟨403, 455, 100, 100⟩ ⟨0, 30, 1000, 770⟩ [⟨400, 300, 200, 150⟩] 10
    Edges.NONE true = (-3, -5) := by
  decide

/-! ## What snapping is for -/

namespace Edges

def low (edges : Edges) (all sideBySide : Bool) : Bool :=
  all || if sideBySide then edges.left else edges.top

def high (edges : Edges) (all sideBySide : Bool) : Bool :=
  all || if sideBySide then edges.right else edges.bottom

/-- A move takes both edges of an axis, a resize drags at most one. -/
def OneSided (edges : Edges) (all : Bool) : Prop :=
  all = true ∨ ∀ sideBySide, ¬(edges.low false sideBySide ∧ edges.high false sideBySide)

end Edges

/-- `o` is within `dist` of the frame along an axis. -/
def Near (frame : Rectangle) (dist : Int) (sideBySide : Bool) (o : Rectangle) : Prop :=
  o.near sideBySide < frame.far sideBySide + dist ∧
    frame.near sideBySide - dist < o.far sideBySide

/-- Where an edge may snap to along an axis: an edge of the usable area, or of a frame near on
the other axis. -/
def Target (frame usable : Rectangle) (others : List Rectangle) (dist : Int)
    (sideBySide : Bool) (t : Int) : Prop :=
  t = usable.near sideBySide ∨ t = usable.far sideBySide ∨
    ∃ o ∈ others, Near frame dist (!sideBySide) o ∧
      (t = o.near sideBySide ∨ t = o.far sideBySide)

def Lands (frame usable : Rectangle) (others : List Rectangle) (dist : Int) (edges : Edges)
    (all sideBySide : Bool) (d : Int) : Prop :=
  ∃ t, Target frame usable others dist sideBySide t ∧
    (edges.low all sideBySide = true ∧ frame.near sideBySide + d = t ∨
      edges.high all sideBySide = true ∧ frame.far sideBySide + d = t)

/-- Where the moving edges are after a shift, and the others. -/
def spanAfter (frame : Rectangle) (edges : Edges) (all sideBySide : Bool) (d : Int) : Int × Int :=
  (if edges.low all sideBySide then frame.near sideBySide + d else frame.near sideBySide,
    if edges.high all sideBySide then frame.far sideBySide + d else frame.far sideBySide)

/-- How far a shift leaves the frame outside the usable area along an axis. -/
def outside (frame usable : Rectangle) (edges : Edges) (all sideBySide : Bool) (d : Int) : Int :=
  overflow (spanAfter frame edges all sideBySide d).1 (spanAfter frame edges all sideBySide d).2
    (usable.near sideBySide) (usable.far sideBySide)

structure Admissible (frame usable : Rectangle) (others : List Rectangle) (dist : Int)
    (edges : Edges) (all sideBySide : Bool) (d : Int) : Prop where
  lands : Lands frame usable others dist edges all sideBySide d
  within : |d| ≤ dist
  visible : (spanAfter frame edges all sideBySide d).1 < (spanAfter frame edges all sideBySide d).2
  kept : outside frame usable edges all sideBySide d ≤
    outside frame usable edges all sideBySide 0

/-- What the shift along an axis is: the nearest that is admissible, or none at all. -/
structure Snapped (frame usable : Rectangle) (others : List Rectangle) (dist : Int)
    (edges : Edges) (all sideBySide : Bool) (d : Int) : Prop where
  within : |d| ≤ max dist 0
  kept : outside frame usable edges all sideBySide d ≤
    outside frame usable edges all sideBySide 0
  lands : d ≠ 0 → Lands frame usable others dist edges all sideBySide d
  nearest : ∀ e, Admissible frame usable others dist edges all sideBySide e → |d| ≤ |e|
  chosen : (∃ e, Admissible frame usable others dist edges all sideBySide e) →
    Admissible frame usable others dist edges all sideBySide d

/-! ## One axis -/

section

variable {lo hi ulo uhi dist : Int} {loMoves hiMoves both : Bool}

/-- The shifts that put a moving edge on one of the targets. -/
def shifts (lo hi : Int) (loMoves hiMoves : Bool) (targets : List Int) : List Int :=
  targets.flatMap fun t =>
    (if loMoves then [t - lo] else []) ++ if hiMoves then [t - hi] else []

theorem mem_shifts {targets : List Int} {d : Int} :
    d ∈ shifts lo hi loMoves hiMoves targets ↔
      ∃ t ∈ targets, (loMoves = true ∧ lo + d = t) ∨ hiMoves = true ∧ hi + d = t := by
  simp only [shifts, List.mem_flatMap, List.mem_append]
  apply exists_congr
  intro t
  apply and_congr_right
  intro _
  cases loMoves <;> cases hiMoves <;> simp <;> omega

/-- The shifts close enough that keep the frame on the area. -/
def choices (lo hi ulo uhi dist : Int) (loMoves hiMoves both : Bool) (targets : List Int) :
    List Int :=
  (shifts lo hi loMoves hiMoves targets).filter fun d =>
    |d| ≤ dist ∧ allowed lo hi ulo uhi loMoves both d

theorem consider_eq (best : Option Int) (d : Int) :
    consider lo hi ulo uhi dist loMoves both best d =
      if |d| ≤ dist ∧ allowed lo hi ulo uhi loMoves both d then
        List.argAux (fun b c => |b| < |c|) best d
      else best := by
  cases best with
  | none =>
    simp only [consider, Option.any_none, Bool.false_eq_true, or_false, List.argAux]
    split <;> split <;> grind
  | some b =>
    simp only [consider, Option.any_some, decide_eq_true_eq, List.argAux]
    grind

theorem each_eq (best : Option Int) (t : Int) :
    each lo hi ulo uhi dist loMoves hiMoves both best t =
      ((if loMoves then [t - lo] else []) ++ if hiMoves then [t - hi] else []).foldl
        (consider lo hi ulo uhi dist loMoves both) best := by
  cases loMoves <;> cases hiMoves <;> rfl

theorem snapAxis_eq (targets : List Int) :
    snapAxis lo hi ulo uhi targets dist loMoves hiMoves both =
      ((choices lo hi ulo uhi dist loMoves hiMoves both (ulo :: uhi :: targets)).argmin
        (|·|)).getD 0 := by
  have steps : each lo hi ulo uhi dist loMoves hiMoves both = fun best t =>
      ((if loMoves then [t - lo] else []) ++ if hiMoves then [t - hi] else []).foldl
        (consider lo hi ulo uhi dist loMoves both) best := by
    funext best t
    exact each_eq best t
  have keeps : consider lo hi ulo uhi dist loMoves both = fun best d =>
      if (decide (|d| ≤ dist ∧ allowed lo hi ulo uhi loMoves both d) : Bool) then
        List.argAux (fun b c => |b| < |c|) best d
      else best := by
    funext best d
    rw [consider_eq]
    simp only [decide_eq_true_eq]
  rw [snapAxis, steps, ← List.foldl_flatMap, keeps, ← List.foldl_filter]
  rfl

theorem snapAxis_chosen {targets : List Int} {e : Int}
    (choice : e ∈ choices lo hi ulo uhi dist loMoves hiMoves both (ulo :: uhi :: targets)) :
    snapAxis lo hi ulo uhi targets dist loMoves hiMoves both ∈
        choices lo hi ulo uhi dist loMoves hiMoves both (ulo :: uhi :: targets) ∧
      |snapAxis lo hi ulo uhi targets dist loMoves hiMoves both| ≤ |e| := by
  rw [snapAxis_eq]
  generalize choices lo hi ulo uhi dist loMoves hiMoves both (ulo :: uhi :: targets) = l at choice
  cases least : l.argmin (|·|) with
  | none =>
    rw [List.argmin_eq_none] at least
    rw [least] at choice
    exact absurd choice List.not_mem_nil
  | some d => exact ⟨List.argmin_mem least, List.le_of_mem_argmin choice least⟩

theorem snapAxis_none {targets : List Int}
    (none : choices lo hi ulo uhi dist loMoves hiMoves both (ulo :: uhi :: targets) = []) :
    snapAxis lo hi ulo uhi targets dist loMoves hiMoves both = 0 := by
  rw [snapAxis_eq, none]
  rfl

end

/-! ## Both axes -/

section

variable {frame usable : Rectangle} {others : List Rectangle} {dist : Int} {edges : Edges}
variable {all sideBySide : Bool}

/-- The edges an axis may snap to, the usable area's first. -/
def targetEdges (frame usable : Rectangle) (others : List Rectangle) (dist : Int)
    (sideBySide : Bool) : List Int :=
  usable.near sideBySide :: usable.far sideBySide ::
    (others.filter fun o => o.near (!sideBySide) < frame.far (!sideBySide) + dist ∧
      o.far (!sideBySide) > frame.near (!sideBySide) - dist).flatMap fun o =>
        [o.near sideBySide, o.far sideBySide]

theorem mem_targetEdges {t : Int} : t ∈ targetEdges frame usable others dist sideBySide ↔
    Target frame usable others dist sideBySide t := by
  simp [targetEdges, Target, Near, and_assoc]

theorem spanAfter_zero : spanAfter frame edges all sideBySide 0 =
    (frame.near sideBySide, frame.far sideBySide) := by
  simp [spanAfter]

theorem shifted_eq (oneSided : edges.OneSided all) (d : Int)
    (moves : edges.low all sideBySide = true ∨ edges.high all sideBySide = true) :
    shifted (frame.near sideBySide) (frame.far sideBySide) (edges.low all sideBySide) all d =
      spanAfter frame edges all sideBySide d := by
  cases all with
  | true => rfl
  | false =>
    have one := oneSided.resolve_left Bool.false_ne_true sideBySide
    cases low : edges.low false sideBySide with
    | true =>
      have still : edges.high false sideBySide = false := by
        rw [low] at one
        simpa using one
      simp [shifted, spanAfter, low, still]
    | false =>
      have high := moves.resolve_left (by simp [low])
      simp [shifted, spanAfter, low, high]

theorem allowed_iff (oneSided : edges.OneSided all) {d : Int}
    (moves : edges.low all sideBySide = true ∨ edges.high all sideBySide = true) :
    allowed (frame.near sideBySide) (frame.far sideBySide) (usable.near sideBySide)
        (usable.far sideBySide) (edges.low all sideBySide) all d = true ↔
      (spanAfter frame edges all sideBySide d).1 < (spanAfter frame edges all sideBySide d).2 ∧
        outside frame usable edges all sideBySide d ≤
          outside frame usable edges all sideBySide 0 := by
  rw [allowed, shifted_eq oneSided d moves, decide_eq_true_eq, outside, outside, spanAfter_zero]

theorem mem_choices (oneSided : edges.OneSided all) {d : Int} :
    d ∈ choices (frame.near sideBySide) (frame.far sideBySide) (usable.near sideBySide)
        (usable.far sideBySide) dist (edges.low all sideBySide) (edges.high all sideBySide) all
        (targetEdges frame usable others dist sideBySide) ↔
      Admissible frame usable others dist edges all sideBySide d := by
  have lands : d ∈ shifts (frame.near sideBySide) (frame.far sideBySide)
      (edges.low all sideBySide) (edges.high all sideBySide)
      (targetEdges frame usable others dist sideBySide) ↔
        Lands frame usable others dist edges all sideBySide d := by
    rw [mem_shifts, Lands]
    exact exists_congr fun t => and_congr_left fun _ => mem_targetEdges
  rw [choices, List.mem_filter, lands, decide_eq_true_eq]
  constructor
  · rintro ⟨landed, within, ok⟩
    have moves : edges.low all sideBySide = true ∨ edges.high all sideBySide = true := by
      rcases landed with ⟨_, _, low | high⟩
      · exact .inl low.1
      · exact .inr high.1
    rcases (allowed_iff oneSided moves).mp ok with ⟨visible, kept⟩
    exact ⟨landed, within, visible, kept⟩
  · intro admissible
    have moves : edges.low all sideBySide = true ∨ edges.high all sideBySide = true := by
      rcases admissible.lands with ⟨_, _, low | high⟩
      · exact .inl low.1
      · exact .inr high.1
    exact ⟨admissible.lands, admissible.within,
      (allowed_iff oneSided moves).mpr ⟨admissible.visible, admissible.kept⟩⟩

theorem snapped_zero
    (none : ∀ e, Admissible frame usable others dist edges all sideBySide e → e = 0) :
    Snapped frame usable others dist edges all sideBySide 0 where
  within := by simp
  kept := le_rfl
  lands := fun moved => absurd rfl moved
  nearest := fun e _ => by simp
  chosen := by
    rintro ⟨e, admissible⟩
    rwa [none e admissible] at admissible

theorem snapped_axis (oneSided : edges.OneSided all) (targets : List Int)
    (edge : targetEdges frame usable others dist sideBySide =
      usable.near sideBySide :: usable.far sideBySide :: targets) :
    Snapped frame usable others dist edges all sideBySide
      (snapAxis (frame.near sideBySide) (frame.far sideBySide) (usable.near sideBySide)
        (usable.far sideBySide) targets dist (edges.low all sideBySide)
        (edges.high all sideBySide) all) := by
  have choice := @mem_choices frame usable others dist edges all sideBySide oneSided
  rw [edge] at choice
  by_cases some : ∃ e, Admissible frame usable others dist edges all sideBySide e
  · rcases some with ⟨e, admissible⟩
    have chosen := choice.mp (snapAxis_chosen (choice.mpr admissible)).1
    exact {
      within := chosen.within.trans (le_max_left _ _)
      kept := chosen.kept
      lands := fun _ => chosen.lands
      nearest := fun other also => (snapAxis_chosen (choice.mpr also)).2
      chosen := fun _ => chosen }
  · have none := not_exists.mp some
    rw [snapAxis_none (List.eq_nil_iff_forall_not_mem.mpr fun d member =>
      none d (choice.mp member))]
    exact snapped_zero fun e admissible => absurd admissible (none e)

theorem snapped_ite (oneSided : edges.OneSided all) (targets : List Int)
    (edge : targetEdges frame usable others dist sideBySide =
      usable.near sideBySide :: usable.far sideBySide :: targets) :
    Snapped frame usable others dist edges all sideBySide
      (if edges.low all sideBySide || edges.high all sideBySide then
        snapAxis (frame.near sideBySide) (frame.far sideBySide) (usable.near sideBySide)
          (usable.far sideBySide) targets dist (edges.low all sideBySide)
          (edges.high all sideBySide) all
      else 0) := by
  split
  · exact snapped_axis oneSided targets edge
  · rename_i still
    rw [Bool.or_eq_true, not_or] at still
    apply snapped_zero
    intro e admissible
    rcases admissible.lands with ⟨_, _, low | high⟩
    · exact absurd low.1 still.1
    · exact absurd high.1 still.2

end

end EclipseOS.Abyss.Snapping
