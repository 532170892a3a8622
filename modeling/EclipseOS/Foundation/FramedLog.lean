import EclipseOS.Foundation.BigEndian

/-! # Framed logs

Records one after another, each behind its length and a checksum. Reading stops at the
first that is torn or corrupt. -/

namespace EclipseOS.Foundation

/-- How a record is spelled, and what is summed over it. -/
structure Framing (ρ : Type) where
  encode : ρ → Bytes
  decode : Bytes → Option ρ
  sum : Bytes → UInt32
  reads : ∀ record, decode (encode record) = some record

namespace Framing

def le32 (n : Nat) : Bytes := (bigEndian 4 n).reverse

def ofLe (bytes : Bytes) : Nat := ofBigEndian bytes.reverse

theorem length_le32 (n : Nat) : (le32 n).length = 4 := by simp [le32]

theorem ofLe_le32 {n : Nat} (fits : n < 2 ^ 32) : ofLe (le32 n) = n := by
  rw [ofLe, le32, List.reverse_reverse, ofBigEndian_bigEndian]
  exact Nat.mod_eq_of_lt fits

variable {ρ : Type} (framing : Framing ρ)

def frame (record : ρ) : Bytes :=
  let payload := framing.encode record
  le32 payload.length ++ le32 (framing.sum payload).toNat ++ payload

/-- The record at the front, and what follows it. -/
def next (buf : Bytes) : Option (ρ × Bytes) :=
  if buf.length < 8 then none
  else
    let len := ofLe (buf.take 4)
    let sum := ofLe ((buf.drop 4).take 4)
    let rest := buf.drop 8
    if rest.length < len then none
    else if (framing.sum (rest.take len)).toNat ≠ sum then none
    else (framing.decode (rest.take len)).map fun record => (record, rest.drop len)

/-- The records that can be read, and what is left. -/
def scan : Nat → Bytes → List ρ × Bytes
  | 0, buf => ([], buf)
  | fuel + 1, buf =>
    match framing.next buf with
    | none => ([], buf)
    | some (record, rest) => (record :: (scan fuel rest).1, (scan fuel rest).2)

/-- Every record up to the first that is torn or corrupt. -/
def records (buf : Bytes) : List ρ := (framing.scan buf.length buf).1

/-- What reading leaves, from the first record that is torn or corrupt. -/
def unread (buf : Bytes) : Bytes := (framing.scan buf.length buf).2

/-- A record whose length the frame can hold. -/
def Fits (record : ρ) : Prop := (framing.encode record).length < 2 ^ 32

instance (record : ρ) : Decidable (framing.Fits record) :=
  inferInstanceAs (Decidable (_ < _))

variable {framing} {record : ρ} {buf rest tail : Bytes}

theorem next_some (found : framing.next buf = some (record, rest)) :
    8 ≤ buf.length ∧ ofLe (buf.take 4) ≤ (buf.drop 8).length ∧
      (framing.sum ((buf.drop 8).take (ofLe (buf.take 4)))).toNat = ofLe ((buf.drop 4).take 4) ∧
      framing.decode ((buf.drop 8).take (ofLe (buf.take 4))) = some record ∧
      rest = (buf.drop 8).drop (ofLe (buf.take 4)) := by
  unfold next at found
  split at found
  · cases found
  · rename_i long
    dsimp only at found
    split at found
    · cases found
    · rename_i holds
      split at found
      · cases found
      · rename_i sums
        rcases Option.map_eq_some_iff.mp found with ⟨_, decoded, same⟩
        cases same
        exact ⟨by omega, by omega, not_not.mp sums, decoded, rfl⟩

theorem next_length (found : framing.next buf = some (record, rest)) :
    rest.length < buf.length := by
  rcases next_some found with ⟨long, -, -, -, rfl⟩
  simp only [List.length_drop]
  omega

theorem next_append (found : framing.next buf = some (record, rest)) (tail : Bytes) :
    framing.next (buf ++ tail) = some (record, rest ++ tail) := by
  rcases next_some found with ⟨long, holds, sums, decoded, rfl⟩
  have head : (buf ++ tail).take 4 = buf.take 4 := List.take_append_of_le_length (by omega)
  have middle : ((buf ++ tail).drop 4).take 4 = (buf.drop 4).take 4 := by
    rw [List.drop_append_of_le_length (by omega)]
    apply List.take_append_of_le_length
    rw [List.length_drop]
    omega
  have body : (buf ++ tail).drop 8 = buf.drop 8 ++ tail :=
    List.drop_append_of_le_length long
  have payload : (buf.drop 8 ++ tail).take (ofLe (buf.take 4)) =
      (buf.drop 8).take (ofLe (buf.take 4)) := List.take_append_of_le_length holds
  unfold next
  rw [if_neg (by rw [List.length_append]; omega)]
  dsimp only
  rw [head, middle, body, payload, if_neg (by rw [List.length_append]; omega),
    if_neg (not_not.mpr sums), decoded, List.drop_append_of_le_length holds, Option.map_some]

theorem scan_fuel {fuel : Nat} (enough : buf.length ≤ fuel) :
    framing.scan fuel buf = framing.scan buf.length buf := by
  induction fuel using Nat.strongRecOn generalizing buf with
  | ind fuel induction =>
    cases fuel with
    | zero =>
      rw [Nat.le_zero.mp enough]
    | succ fuel =>
      cases length : buf.length with
      | zero =>
        rw [List.eq_nil_of_length_eq_zero length]
        rfl
      | succ size =>
        rw [scan, scan]
        cases found : framing.next buf with
        | none => rfl
        | some next =>
          have shorter := next_length found
          have here := induction fuel (by omega) (by omega : next.2.length ≤ fuel)
          have there := induction size (by omega) (by omega : next.2.length ≤ size)
          dsimp only
          rw [here, there]

theorem records_append (whole : framing.unread buf = []) (tail : Bytes) :
    framing.records (buf ++ tail) = framing.records buf ++ framing.records tail ∧
      framing.unread (buf ++ tail) = framing.unread tail := by
  unfold records unread at *
  induction length : buf.length using Nat.strongRecOn generalizing buf with
  | ind size induction =>
    subst length
    cases buf with
    | nil => exact ⟨rfl, rfl⟩
    | cons byte bytes =>
      rw [List.length_cons, scan] at whole
      cases found : framing.next (byte :: bytes) with
      | none =>
        rw [found] at whole
        cases whole
      | some next =>
        rw [found] at whole
        dsimp only at whole
        have shorter := next_length found
        rw [List.length_cons] at shorter
        rw [scan_fuel (by omega)] at whole
        rcases induction next.2.length (by simpa using shorter) whole rfl with
          ⟨records, unread⟩
        rw [List.cons_append, List.length_cons, scan, ← List.cons_append,
          next_append found, List.length_cons, scan, found]
        dsimp only
        have left := @scan_fuel _ framing next.2 bytes.length (by omega)
        have right := @scan_fuel _ framing (next.2 ++ tail) (bytes ++ tail).length
          (by rw [List.length_append, List.length_append]; omega)
        rw [left, right, records, unread]
        exact ⟨rfl, rfl⟩

theorem records_nil (framing : Framing ρ) : framing.records [] = [] := rfl

theorem length_frame (framing : Framing ρ) (record : ρ) :
    (framing.frame record).length = 8 + (framing.encode record).length := by
  simp only [frame, List.length_append, length_le32]

theorem frame_parts (framing : Framing ρ) (record : ρ) (rest : Bytes) :
    (framing.frame record ++ rest).take 4 = le32 (framing.encode record).length ∧
      ((framing.frame record ++ rest).drop 4).take 4 =
        le32 (framing.sum (framing.encode record)).toNat ∧
      (framing.frame record ++ rest).drop 8 = framing.encode record ++ rest := by
  unfold frame
  dsimp only
  rw [List.append_assoc, List.append_assoc]
  refine ⟨List.take_left' (length_le32 _), ?_, ?_⟩
  · rw [List.drop_left' (length_le32 _)]
    exact List.take_left' (length_le32 _)
  · rw [← List.append_assoc]
    apply List.drop_left'
    rw [List.length_append, length_le32, length_le32]

theorem next_frame (fits : framing.Fits record) (rest : Bytes) :
    framing.next (framing.frame record ++ rest) = some (record, rest) := by
  rcases framing.frame_parts record rest with ⟨head, middle, body⟩
  have length := ofLe_le32 fits
  have sums := ofLe_le32 (framing.sum (framing.encode record)).toNat_lt
  unfold next
  rw [if_neg (by rw [List.length_append, length_frame]; omega)]
  dsimp only
  rw [head, middle, body, length, sums, List.take_left, List.drop_left,
    if_neg (by rw [List.length_append]; omega), if_neg (not_not.mpr rfl), framing.reads,
    Option.map_some]

theorem next_torn (fits : framing.Fits record) {kept : Nat}
    (torn : kept < (framing.frame record).length) :
    framing.next ((framing.frame record).take kept) = none := by
  have cut : ((framing.frame record).take kept).length = kept :=
    List.length_take_of_le (Nat.le_of_lt torn)
  unfold next
  split
  · rfl
  · rename_i long
    have head := (framing.frame_parts record []).1
    rw [List.append_nil] at head
    have same : ((framing.frame record).take kept).take 4 = (framing.frame record).take 4 := by
      rw [List.take_take]
      congr 1
      omega
    dsimp only
    rw [same, head, ofLe_le32 fits, if_pos]
    rw [List.length_drop, cut]
    rw [length_frame] at torn
    omega

theorem scan_nil (framing : Framing ρ) (fuel : Nat) : framing.scan fuel [] = ([], []) :=
  scan_fuel (Nat.zero_le fuel)

theorem records_last (found : framing.next buf = some (record, [])) :
    framing.records buf = [record] ∧ framing.unread buf = [] := by
  have shorter := next_length found
  unfold records unread
  cases size : buf.length with
  | zero => rw [size] at shorter; cases shorter
  | succ size =>
    rw [scan, found]
    dsimp only
    rw [scan_nil]
    exact ⟨rfl, rfl⟩

theorem records_frame (fits : framing.Fits record) :
    framing.records (framing.frame record) = [record] ∧
      framing.unread (framing.frame record) = [] := by
  have found := next_frame fits []
  rw [List.append_nil] at found
  exact records_last found

theorem records_none (none : framing.next buf = none) : framing.records buf = [] := by
  unfold records
  cases buf.length with
  | zero => rfl
  | succ size => rw [scan, none]

theorem records_torn (fits : framing.Fits record) {kept : Nat}
    (torn : kept < (framing.frame record).length) :
    framing.records ((framing.frame record).take kept) = [] :=
  records_none (next_torn fits torn)

end Framing

end EclipseOS.Foundation
