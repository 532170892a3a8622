import Mathlib.Data.Nat.ModEq
import Mathlib.Tactic.Ring

/-! # Numbers of a fixed number of digits

Texts of one width, most significant digit first, sort as the numbers they spell. -/

namespace EclipseOS.Foundation

/-- The low `width` digits of a value, most significant first. -/
def fixedDigits (base : Nat) : (width value : Nat) → List Nat
  | 0, _ => []
  | width + 1, value => value / base ^ width % base :: fixedDigits base width value

variable {base width low value left right : Nat}

@[simp] theorem fixedDigits_length : (fixedDigits base width value).length = width := by
  induction width with
  | zero => rfl
  | succ width induction => rw [fixedDigits, List.length_cons, induction]

theorem fixedDigits_mod (inside : low ≤ width) :
    fixedDigits base low (value % base ^ width) = fixedDigits base low value := by
  induction low with
  | zero => rfl
  | succ low induction =>
    have split : base ^ width = base ^ low * base ^ (width - low) := by
      rw [← Nat.pow_add]
      congr 1
      omega
    have divides : base ∣ base ^ (width - low) := dvd_pow_self base (by omega)
    rw [fixedDigits, fixedDigits, induction (by omega), split, Nat.mod_mul_right_div_self,
      Nat.mod_mod_of_dvd _ divides]

theorem fixedDigits_append (width high : Nat) (small : value < base ^ low) :
    fixedDigits base (width + low) (high * base ^ low + value) =
      fixedDigits base width high ++ fixedDigits base low value := by
  have positive : 0 < base ^ low := by omega
  induction width with
  | zero =>
    rw [Nat.zero_add, ← fixedDigits_mod (Nat.le_refl low), Nat.mul_comm, Nat.mul_add_mod,
      Nat.mod_eq_of_lt small]
    rfl
  | succ width induction =>
    have top : (high * base ^ low + value) / base ^ (width + low) = high / base ^ width := by
      rw [Nat.pow_add, Nat.mul_comm (base ^ width), ← Nat.div_div_eq_div_mul, Nat.mul_comm high,
        Nat.mul_add_div positive, Nat.div_eq_of_lt small, Nat.add_zero]
    rw [Nat.add_right_comm, fixedDigits, top, induction]
    rfl

theorem fixedDigits_snoc (positive : 0 < base) :
    fixedDigits base (width + 1) value =
      fixedDigits base width (value / base) ++ [value % base] := by
  have small : value % base < base ^ 1 := by
    rw [Nat.pow_one]
    exact Nat.mod_lt _ positive
  have parts := fixedDigits_append width (value / base) small
  rw [Nat.pow_one, Nat.div_add_mod'] at parts
  rw [parts, fixedDigits, Nat.pow_zero, Nat.div_one, Nat.mod_mod, fixedDigits]

theorem fixedDigits_eq_map :
    fixedDigits base width value =
      (List.range width).map fun place => value / base ^ (width - 1 - place) % base := by
  induction width with
  | zero => rfl
  | succ width induction =>
    rw [fixedDigits, induction, List.range_succ_eq_map, List.map_cons, List.map_map]
    congr 1
    apply List.map_congr_left
    intro place _
    have shifted : width + 1 - 1 - (place + 1) = width - 1 - place := by omega
    simp only [Function.comp_apply, Nat.succ_eq_add_one, shifted]

/-! ## Order -/

variable {α : Type} [LT α] {symbol : Nat → α}

theorem map_fixedDigits_lt
    (increasing : ∀ low high, low < high → high < base → symbol low < symbol high)
    (less : left < right) (fits : right < base ^ width) :
    (fixedDigits base width left).map symbol < (fixedDigits base width right).map symbol := by
  induction width generalizing left right with
  | zero =>
    rw [Nat.pow_zero] at fits
    omega
  | succ width induction =>
    have positive : 0 < base ^ width := by
      apply Nat.pos_of_ne_zero
      intro none
      rw [Nat.pow_succ, none, Nat.zero_mul] at fits
      exact Nat.not_lt_zero _ fits
    have top : right / base ^ width < base := by
      rw [Nat.pow_succ] at fits
      exact Nat.div_lt_of_lt_mul fits
    have below : left / base ^ width ≤ right / base ^ width := Nat.div_le_div_right less.le
    rw [fixedDigits, fixedDigits, List.map_cons, List.map_cons, List.cons_lt_cons_iff,
      Nat.mod_eq_of_lt top, Nat.mod_eq_of_lt (below.trans_lt top)]
    rcases below.lt_or_eq with before | equal
    · exact Or.inl (increasing _ _ before top)
    · -- equal leading digits: the rest decides
      have rest : left % base ^ width < right % base ^ width := by
        have parts := Nat.div_add_mod left (base ^ width)
        have parts' := Nat.div_add_mod right (base ^ width)
        rw [equal] at parts
        omega
      have induction := induction rest (Nat.mod_lt _ positive)
      rw [fixedDigits_mod (Nat.le_refl width), fixedDigits_mod (Nat.le_refl width)] at induction
      exact Or.inr ⟨congrArg symbol equal, induction⟩

variable [Std.Irrefl (· < · : α → α → Prop)] [Std.Asymm (· < · : α → α → Prop)]

theorem map_fixedDigits_lt_iff
    (increasing : ∀ low high, low < high → high < base → symbol low < symbol high)
    (fits : left < base ^ width) (fits' : right < base ^ width) :
    (fixedDigits base width left).map symbol < (fixedDigits base width right).map symbol ↔
      left < right := by
  refine ⟨fun before => ?_, fun less => map_fixedDigits_lt increasing less fits'⟩
  rcases Nat.lt_trichotomy left right with less | rfl | greater
  · exact less
  · exact absurd before (List.lt_irrefl _)
  · exact absurd before (List.lt_asymm (map_fixedDigits_lt increasing greater fits))

/-! ## Zero padding -/

/-- The digits of a number, filled up with zeros on the left. -/
def zeroPadded (width value : Nat) : List Char := (Nat.toDigits 10 value).leftpad width '0'

@[simp] theorem fixedDigits_zero : fixedDigits base width 0 = List.replicate width 0 := by
  induction width with
  | zero => rfl
  | succ width induction => rw [fixedDigits, induction, Nat.zero_div, Nat.zero_mod]; rfl

theorem zeroPadded_eq (fits : value < 10 ^ (width + 1)) :
    zeroPadded (width + 1) value = (fixedDigits 10 (width + 1) value).map Nat.digitChar := by
  rw [fixedDigits_snoc (by decide), List.map_append, zeroPadded, List.leftpad]
  induction width generalizing value with
  | zero =>
    rw [Nat.pow_one] at fits
    rw [Nat.toDigits_of_lt_base fits, Nat.mod_eq_of_lt fits]
    rfl
  | succ width induction =>
    by_cases small : value < 10
    · rw [Nat.toDigits_of_lt_base small, Nat.div_eq_of_lt small, Nat.mod_eq_of_lt small,
        fixedDigits_zero, List.map_replicate]
      rfl
    · have fits : value / 10 < 10 ^ (width + 1) := by
        rw [Nat.pow_succ] at fits
        omega
      rw [Nat.toDigits_of_base_le (by decide) (by omega), List.length_append,
        List.length_singleton, Nat.add_sub_add_right, ← List.append_assoc, induction fits,
        fixedDigits_snoc (by decide), List.map_append]
      rfl

end EclipseOS.Foundation
