import Mathlib.Data.Nat.ModEq
import Mathlib.Tactic.Ring

/-! # Big-endian numbers

Fixed-width big-endian byte strings, as `to_be_bytes` and `from_be_bytes`
produce and read them. -/

namespace EclipseOS.Foundation

abbrev Bytes := List UInt8

/-- The low `width` bytes of `value`, most significant first. -/
def bigEndian : (width : Nat) → (value : Nat) → Bytes
  | 0, _ => []
  | width + 1, value => UInt8.ofNat (value / 256 ^ width) :: bigEndian width value

/-- The number a byte string spells, most significant byte first. -/
def ofBigEndian : Bytes → Nat
  | [] => 0
  | byte :: rest => byte.toNat * 256 ^ rest.length + ofBigEndian rest

@[simp] theorem bigEndian_length (width value : Nat) :
    (bigEndian width value).length = width := by
  induction width with
  | zero => rfl
  | succ width induction => simp [bigEndian, induction]

@[simp] theorem ofBigEndian_bigEndian (width value : Nat) :
    ofBigEndian (bigEndian width value) = value % 256 ^ width := by
  induction width with
  | zero => simp [bigEndian, ofBigEndian, Nat.mod_one]
  | succ width induction =>
    have topByte : (UInt8.ofNat (value / 256 ^ width)).toNat =
        value / 256 ^ width % 256 := by
      simp
    rw [bigEndian, ofBigEndian, bigEndian_length, induction, topByte,
      Nat.pow_succ, Nat.mod_mul]
    ring

theorem ofBigEndian_lt (bytes : Bytes) :
    ofBigEndian bytes < 256 ^ bytes.length := by
  induction bytes with
  | nil => simp [ofBigEndian]
  | cons byte rest induction =>
    have byteBound : byte.toNat + 1 ≤ 256 := byte.toNat_lt
    calc
      ofBigEndian (byte :: rest)
          < byte.toNat * 256 ^ rest.length + 256 ^ rest.length := by
            simpa [ofBigEndian] using induction
      _ = (byte.toNat + 1) * 256 ^ rest.length := by ring
      _ ≤ 256 * 256 ^ rest.length := Nat.mul_le_mul_right _ byteBound
      _ = 256 ^ (byte :: rest).length := by
            rw [List.length_cons, Nat.pow_succ]
            ring

theorem bigEndian_add_mul (width high value : Nat) :
    bigEndian width (high * 256 ^ width + value) = bigEndian width value := by
  induction width generalizing high with
  | zero => rfl
  | succ width induction =>
    have shifted : high * 256 ^ (width + 1) + value =
        (high * 256) * 256 ^ width + value := by
      rw [Nat.pow_succ]
      ring
    have quotient : (high * 256 * 256 ^ width + value) / 256 ^ width =
        high * 256 + value / 256 ^ width := by
      rw [Nat.add_comm, Nat.add_mul_div_right _ _ (Nat.pow_pos (by decide)),
        Nat.add_comm]
    have sameByte : UInt8.ofNat (high * 256 + value / 256 ^ width) =
        UInt8.ofNat (value / 256 ^ width) := by
      apply UInt8.toNat_inj.mp
      simp
    rw [bigEndian, bigEndian, shifted, quotient, sameByte, induction]

theorem bigEndian_ofBigEndian (bytes : Bytes) :
    bigEndian bytes.length (ofBigEndian bytes) = bytes := by
  induction bytes with
  | nil => rfl
  | cons byte rest induction =>
    have quotient : (byte.toNat * 256 ^ rest.length + ofBigEndian rest) /
        256 ^ rest.length = byte.toNat := by
      rw [Nat.add_comm, Nat.add_mul_div_right _ _ (Nat.pow_pos (by decide)),
        Nat.div_eq_of_lt (ofBigEndian_lt rest), Nat.zero_add]
    rw [List.length_cons, bigEndian, ofBigEndian, quotient,
      bigEndian_add_mul, induction]
    simp

end EclipseOS.Foundation
