import Mathlib

/-!
# Byte strings as keys

Numbers of a fixed width as bytes, most significant byte first, and the byte strings
between two single bytes in lexicographic order.
-/

namespace ArmchairAnalyst

/-! ### Numbers of a fixed width -/

def bigEndian : Nat → Nat → List UInt8
  | 0, _ => []
  | count + 1, value => UInt8.ofNat (value / 256 ^ count) :: bigEndian count value

def bigEndianValue : List UInt8 → Nat
  | [] => 0
  | byte :: bytes => byte.toNat * 256 ^ bytes.length + bigEndianValue bytes

@[simp] theorem length_bigEndian (count value : Nat) : (bigEndian count value).length = count := by
  induction count with
  | zero => rfl
  | succ count inductionHypothesis => rw [bigEndian, List.length_cons, inductionHypothesis]

theorem bigEndianValue_lt (bytes : List UInt8) : bigEndianValue bytes < 256 ^ bytes.length := by
  induction bytes with
  | nil => exact Nat.one_pos
  | cons byte bytes inductionHypothesis =>
    have digit : byte.toNat + 1 ≤ 256 := byte.toNat_lt
    calc byte.toNat * 256 ^ bytes.length + bigEndianValue bytes
        < (byte.toNat + 1) * 256 ^ bytes.length := by rw [Nat.succ_mul]; omega
      _ ≤ 256 * 256 ^ bytes.length := Nat.mul_le_mul_right _ digit
      _ = 256 ^ (byte :: bytes).length := by rw [List.length_cons, Nat.pow_succ']

/-- Reading back leaves the part of a number that its width holds. -/
theorem bigEndianValue_bigEndian (count value : Nat) :
    bigEndianValue (bigEndian count value) = value % 256 ^ count := by
  induction count with
  | zero => rw [bigEndian, bigEndianValue, Nat.pow_zero, Nat.mod_one]
  | succ count inductionHypothesis =>
    have digit : (UInt8.ofNat (value / 256 ^ count)).toNat = value / 256 ^ count % 256 :=
      UInt8.toNat_ofNat'
    rw [bigEndian, bigEndianValue, inductionHypothesis, length_bigEndian, digit,
      Nat.mod_pow_succ, Nat.mul_comm, Nat.add_comm]

theorem bigEndian_mul_add (count value more : Nat) :
    bigEndian count (more * 256 ^ count + value) = bigEndian count value := by
  induction count generalizing more with
  | zero => rfl
  | succ count inductionHypothesis =>
    have shifted : more * 256 ^ (count + 1) + value = more * 256 * 256 ^ count + value := by ring
    have high : (more * 256 * 256 ^ count + value) / 256 ^ count =
        value / 256 ^ count + more * 256 := by
      rw [Nat.add_comm, Nat.add_mul_div_right _ _ (Nat.pow_pos (by decide))]
    rw [bigEndian, bigEndian, shifted, inductionHypothesis, high]
    congr 1
    apply UInt8.toNat.inj
    rw [UInt8.toNat_ofNat', UInt8.toNat_ofNat']
    omega

theorem bigEndian_bigEndianValue (bytes : List UInt8) :
    bigEndian bytes.length (bigEndianValue bytes) = bytes := by
  induction bytes with
  | nil => rfl
  | cons byte bytes inductionHypothesis =>
    have high : (byte.toNat * 256 ^ bytes.length + bigEndianValue bytes) / 256 ^ bytes.length =
        byte.toNat := by
      rw [Nat.add_comm, Nat.add_mul_div_right _ _ (Nat.pow_pos (by decide)),
        Nat.div_eq_of_lt (bigEndianValue_lt bytes), Nat.zero_add]
    rw [List.length_cons, bigEndian, bigEndianValue, high, bigEndian_mul_add, inductionHypothesis,
      UInt8.ofNat_toNat]

/-! ### Keys by their first byte -/

/-- The strings from one byte up to the next begin with that byte. -/
theorem between_iff_head? {tag next : UInt8} (successor : next.toNat = tag.toNat + 1)
    (key : List UInt8) :
    (compare [tag] key).isLE = true ∧ compare key [next] = .lt ↔ key.head? = some tag := by
  cases key with
  | nil => simp
  | cons byte key =>
    have below : compare (byte :: key) [next] = .lt ↔ byte < next := by
      rw [List.compare_eq_compareLex, List.compareLex_cons_cons, Ordering.then_eq_lt,
        Std.compare_eq_lt]
      refine or_iff_left ?_
      rintro ⟨-, shorter⟩
      cases key <;> cases shorter
    have above : (compare [tag] (byte :: key)).isLE = true ↔ tag ≤ byte := by
      rw [List.compare_eq_compareLex, List.compareLex_cons_cons, Ordering.isLE_then_iff_and,
        Std.LawfulOrderOrd.isLE_compare]
      refine and_iff_left (.inr ?_)
      cases key <;> rfl
    rw [below, above, List.head?_cons, Option.some.injEq, UInt8.le_iff_toNat_le,
      UInt8.lt_iff_toNat_lt, ← UInt8.toNat_inj]
    omega

end ArmchairAnalyst
