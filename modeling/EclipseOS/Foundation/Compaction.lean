import Mathlib.Data.Int.Interval
import Mathlib.Order.Interval.Finset.Basic

/-! # Closing gaps

Spans on a line are moved towards its start until nothing is uncovered in front of any of
them. Where a point goes is how much is covered in front of it. -/

namespace EclipseOS.Foundation.Compaction

abbrev Span := Int × Int

def Covered (spans : List Span) (p : Int) : Prop := ∃ s ∈ spans, s.1 ≤ p ∧ p < s.1 + s.2

instance (spans : List Span) : DecidablePred (Covered spans) := fun p =>
  inferInstanceAs (Decidable (∃ s ∈ spans, s.1 ≤ p ∧ p < s.1 + s.2))

/-- The points of a stretch, from `a` up to `b`. -/
def stretch (a b : Int) : Finset Int :=
  @LocallyFiniteOrder.finsetIco Int _ Int.instLocallyFiniteOrder a b

def extent (spans : List Span) (a b : Int) : Int :=
  ((stretch a b).filter (Covered spans)).card

variable {spans more : List Span} {a b c low x y p : Int} {s : Span}

theorem mem_stretch : p ∈ stretch a b ↔ a ≤ p ∧ p < b := Finset.mem_Ico

theorem card_stretch : (stretch a b).card = (b - a).toNat := Int.card_Ico a b

theorem extent_nonneg : 0 ≤ extent spans a b := Int.natCast_nonneg _

theorem extent_add (ab : a ≤ b) (bc : b ≤ c) :
    extent spans a c = extent spans a b + extent spans b c := by
  have union : stretch a b ∪ stretch b c = stretch a c := Finset.Ico_union_Ico_eq_Ico ab bc
  have apart : Disjoint (stretch a b) (stretch b c) :=
    Finset.Ico_disjoint_Ico_consecutive a b c
  unfold extent
  rw [← union, Finset.filter_union, Finset.card_union_of_disjoint]
  · exact Int.natCast_add _ _
  · exact Finset.disjoint_filter_filter apart

theorem extent_le (ab : a ≤ b) : extent spans a b ≤ b - a := by
  have bound := Finset.card_filter_le (stretch a b) (Covered spans)
  rw [card_stretch] at bound
  unfold extent
  omega

theorem extent_full (ab : a ≤ b) (full : ∀ p, a ≤ p → p < b → Covered spans p) :
    extent spans a b = b - a := by
  unfold extent
  rw [Finset.filter_true_of_mem, card_stretch]
  · omega
  · intro p member
    rcases mem_stretch.mp member with ⟨from', below⟩
    exact full p from' below

theorem extent_none (none : ∀ p, a ≤ p → p < b → ¬Covered spans p) : extent spans a b = 0 := by
  unfold extent
  rw [Finset.filter_false_of_mem, Finset.card_empty, Nat.cast_zero]
  intro p member
  rcases mem_stretch.mp member with ⟨from', below⟩
  exact none p from' below

theorem extent_congr (same : ∀ p, a ≤ p → p < b → (Covered spans p ↔ Covered more p)) :
    extent spans a b = extent more a b := by
  unfold extent
  congr 2
  apply Finset.filter_congr
  intro p member
  rcases mem_stretch.mp member with ⟨from', below⟩
  exact same p from' below

theorem extent_inside (member : s ∈ spans) (left : s.1 ≤ a) (ab : a ≤ b)
    (right : b ≤ s.1 + s.2) : extent spans a b = b - a :=
  extent_full ab fun p low high => ⟨s, member, by omega, by omega⟩

/-- Where a point goes when the gaps after `low` are closed. -/
def compact (spans : List Span) (low x : Int) : Int := extent spans low x

theorem compact_perm (same : spans.Perm more) : compact spans low x = compact more low x := by
  apply extent_congr
  intro p _ _
  constructor
  · intro ⟨s, member, bounds⟩
    exact ⟨s, same.mem_iff.mp member, bounds⟩
  · intro ⟨s, member, bounds⟩
    exact ⟨s, same.mem_iff.mpr member, bounds⟩

theorem compact_low : compact spans low low = 0 := by
  have empty : stretch low low = ∅ := Finset.Ico_self low
  simp [compact, extent, empty]

theorem compact_nonneg : 0 ≤ compact spans low x := extent_nonneg

theorem compact_add (lowA : low ≤ a) (ab : a ≤ b) :
    compact spans low b = compact spans low a + extent spans a b :=
  extent_add lowA ab

theorem compact_mono (lowA : low ≤ a) (ab : a ≤ b) :
    compact spans low a ≤ compact spans low b := by
  have := @compact_add spans _ _ _ lowA ab
  have := @extent_nonneg spans a b
  omega

theorem compact_end (member : s ∈ spans) (lowS : low ≤ s.1) (size : 0 ≤ s.2) :
    compact spans low (s.1 + s.2) = compact spans low s.1 + s.2 := by
  have := @compact_add spans _ _ _ lowS (show s.1 ≤ s.1 + s.2 by omega)
  have := extent_inside member (le_refl s.1) (by omega) (le_refl (s.1 + s.2))
  omega

theorem compact_touching (member : s ∈ spans) (lowS : low ≤ s.1) (after : s.1 ≤ x)
    (within : x ≤ s.1 + s.2) :
    compact spans low x - compact spans low s.1 = x - s.1 := by
  have := @compact_add spans _ _ _ lowS after
  have := extent_inside member (le_refl s.1) after within
  omega

theorem compact_separated (member : s ∈ spans) (lowS : low ≤ s.1) (size : 0 ≤ s.2)
    (after : s.1 + s.2 ≤ x) : compact spans low s.1 + s.2 ≤ compact spans low x := by
  rw [← compact_end member lowS size]
  exact compact_mono (by omega) after

theorem exists_compact (lowX : low ≤ x) (nonneg : 0 ≤ p) (below : p < compact spans low x) :
    ∃ q, low ≤ q ∧ q < x ∧ Covered spans q ∧ compact spans low q = p := by
  obtain ⟨n, rfl⟩ : ∃ n : Nat, x = low + n := ⟨(x - low).toNat, by omega⟩
  clear lowX
  induction n with
  | zero =>
    rw [Nat.cast_zero, add_zero, compact_low] at below
    omega
  | succ n induction =>
    rw [Nat.cast_succ, ← add_assoc] at below ⊢
    have split := @compact_add spans (low + n) (low + n + 1) low (by omega) (by omega)
    by_cases before : p < compact spans low (low + n)
    · rcases induction before with ⟨q, lowQ, belowQ, covered, goes⟩
      exact ⟨q, lowQ, by omega, covered, goes⟩
    · have bound := @extent_le spans (low + n) (low + n + 1) (by omega)
      refine ⟨low + n, by omega, by omega, ?_, by omega⟩
      by_contra bare
      have none := @extent_none spans (low + n) (low + n + 1) (by
        intro q after belowQ
        have : q = low + n := by omega
        rwa [this])
      omega

theorem covered_compact (starts : ∀ s ∈ spans, low ≤ s.1) (lowX : low ≤ x) (nonneg : 0 ≤ p)
    (below : p < compact spans low x) :
    Covered (spans.map fun s => (compact spans low s.1, s.2)) p := by
  rcases exists_compact lowX nonneg below with ⟨q, lowQ, -, ⟨s, member, after, before⟩, rfl⟩
  have moved := compact_touching member (starts s member) after (le_of_lt before)
  refine ⟨_, List.mem_map_of_mem member, ?_, ?_⟩ <;> dsimp only <;> omega

theorem compact_compact (starts : ∀ s ∈ spans, low ≤ s.1) (lowX : low ≤ x) :
    compact (spans.map fun s => (compact spans low s.1, s.2)) 0 (compact spans low x) =
      compact spans low x := by
  have full := extent_full (@compact_nonneg spans low x)
    fun p nonneg below => covered_compact starts lowX nonneg below
  rw [sub_zero] at full
  exact full

/-! ## One sweep -/

/-- Where each span goes, in the order of their starts: `shift` has been closed so far, and
nothing is uncovered up to `reach`. -/
def sweep : Int → Int → List Span → List Int
  | _, _, [] => []
  | shift, reach, (start, size) :: rest =>
    let moved := start - shift
    let gap := if moved > reach then moved - reach else 0
    (moved - gap) :: sweep (shift + gap) (max reach (moved - gap + size)) rest

/-- What a sweep knows between the spans it has passed and those before it. -/
structure Swept (done rest : List Span) (shift reach : Int) : Prop where
  /-- What is closed and what is reached make up the farthest end. -/
  ends : ∀ s ∈ done, s.1 + s.2 ≤ shift + reach
  covered : ∀ p, (∀ s ∈ done, s.1 ≤ p) → 0 ≤ p → p < shift + reach → Covered done p
  goes : ∀ p, 0 ≤ p → (∀ s ∈ done, s.1 ≤ p) → (∀ s ∈ rest, p ≤ s.1) →
    compact (done ++ rest) 0 p = if p - shift > reach then reach else p - shift

theorem swept_start : Swept [] spans 0 0 where
  ends _ member := by cases member
  covered p _ nonneg below := by omega
  goes p nonneg _ before := by
    have none : extent spans 0 p = 0 := extent_none fun q _ below ⟨s, member, after, _⟩ => by
      have := before s member
      omega
    rw [List.nil_append, compact, none]
    split_ifs <;> omega

theorem Swept.step {done rest : List Span} {shift reach start size gap : Int}
    (swept : Swept done ((start, size) :: rest) shift reach)
    (sorted : ((start, size) :: rest).Pairwise fun s t => s.1 ≤ t.1)
    (passed : ∀ s ∈ done, s.1 ≤ start) (nonneg : 0 ≤ start) (sized : 0 ≤ size)
    (isGap : gap = if start - shift > reach then start - shift - reach else 0) :
    Swept (done ++ [(start, size)]) rest (shift + gap)
      (max reach (start - shift - gap + size)) := by
  have later : ∀ s ∈ rest, start ≤ s.1 := fun s => (List.pairwise_cons.mp sorted).1 s
  have closed : 0 ≤ gap ∧ start ≤ shift + gap + reach ∧
      (0 < gap → start = shift + gap + reach) := by
    split_ifs at isGap <;> omega
  have here : compact (done ++ (start, size) :: rest) 0 start = start - shift - gap := by
    rw [swept.goes start nonneg passed fun s member => by
      rcases List.mem_cons.mp member with rfl | member
      · exact le_refl _
      · exact later s member]
    split_ifs at isGap ⊢ <;> omega
  have farther : shift + reach ≤ shift + gap + max reach (start - shift - gap + size) := by omega
  -- From the new start on, what is covered ends at the farthest end.
  have coveredIff : ∀ p, start ≤ p → p < shift + gap + max reach (start - shift - gap + size) →
      Covered (done ++ [(start, size)]) p := by
    intro p after below
    by_cases within : p < start + size
    · exact ⟨(start, size), by simp, after, within⟩
    · rcases swept.covered p (fun s member => by have := passed s member; omega) (by omega)
        (by omega) with ⟨s, member, bounds⟩
      exact ⟨s, List.mem_append_left _ member, bounds⟩
  constructor
  · intro s member
    rcases List.mem_append.mp member with old | new
    · have := swept.ends s old
      omega
    · rw [List.mem_singleton.mp new]
      dsimp only
      omega
  · intro p after nonneg below
    exact coveredIff p (after (start, size) (by simp)) below
  · intro p nonneg after before
    rw [List.append_assoc, List.singleton_append]
    have afterStart : start ≤ p := after (start, size) (by simp)
    let top := shift + gap + max reach (start - shift - gap + size)
    have whole := @compact_add (done ++ (start, size) :: rest) start p 0 (by omega) afterStart
    rw [here] at whole
    have widen : ∀ q, Covered (done ++ [(start, size)]) q →
        Covered (done ++ (start, size) :: rest) q := by
      rintro q ⟨s, member, bounds⟩
      refine ⟨s, ?_, bounds⟩
      rcases List.mem_append.mp member with old | new
      · exact List.mem_append_left _ old
      · rw [List.mem_singleton.mp new]
        simp
    have beyond : ∀ q, top ≤ q → q < p → ¬Covered (done ++ (start, size) :: rest) q := by
      rintro q above below ⟨s, member, first, last⟩
      rcases List.mem_append.mp member with old | new
      · have := swept.ends s old
        omega
      · rcases List.mem_cons.mp new with rfl | far
        · dsimp only at first last
          omega
        · have := before s far
          omega
    by_cases past : p ≤ top
    · have full := @extent_full (done ++ (start, size) :: rest) _ _ afterStart fun q first last =>
          widen q (coveredIff q first (by omega))
      rw [whole, full]
      split_ifs <;> omega
    · have split := @extent_add (done ++ (start, size) :: rest) start top p (by omega) (by omega)
      have full := @extent_full (done ++ (start, size) :: rest) start top (by omega) fun q first
          last => widen q (coveredIff q first last)
      have none := @extent_none (done ++ (start, size) :: rest) top p beyond
      rw [whole, split, full, none]
      split_ifs <;> omega

theorem sweep_eq {done rest : List Span} {shift reach : Int}
    (swept : Swept done rest shift reach) (sorted : rest.Pairwise fun s t => s.1 ≤ t.1)
    (passed : ∀ s ∈ done, ∀ t ∈ rest, s.1 ≤ t.1) (starts : ∀ s ∈ rest, 0 ≤ s.1)
    (sizes : ∀ s ∈ rest, 0 ≤ s.2) :
    sweep shift reach rest = rest.map fun s => compact (done ++ rest) 0 s.1 := by
  induction rest generalizing done shift reach with
  | nil => rfl
  | cons head rest induction =>
    rcases head with ⟨start, size⟩
    have here := swept.goes start (starts _ List.mem_cons_self)
      (fun s member => passed s member _ List.mem_cons_self) (fun s member => by
        rcases List.mem_cons.mp member with rfl | member
        · exact le_refl _
        · exact (List.pairwise_cons.mp sorted).1 s member)
    have next := swept.step sorted (fun s member => passed s member _ List.mem_cons_self)
      (starts _ List.mem_cons_self) (sizes _ List.mem_cons_self) rfl
    have tail := induction next sorted.of_cons
      (by
        intro s member t later
        rcases List.mem_append.mp member with old | new
        · exact passed s old t (List.mem_cons_of_mem _ later)
        · rw [List.mem_singleton.mp new]
          exact (List.pairwise_cons.mp sorted).1 t later)
      (fun s member => starts s (List.mem_cons_of_mem _ member))
      (fun s member => sizes s (List.mem_cons_of_mem _ member))
    rw [List.append_assoc, List.singleton_append] at tail
    rw [sweep, List.map_cons, tail]
    congr 1
    rw [here]
    split_ifs <;> omega

end EclipseOS.Foundation.Compaction
