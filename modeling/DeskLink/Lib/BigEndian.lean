import Mathlib.Tactic

/-!
# `DeskLink.Lib.BigEndian`: fixed-width numbers in a byte string

`bigEndian w n` is `n` in `w` bytes, the most significant first, and
`bigEndianValue` reads such bytes. Each undoes the other: a number below
`256 ^ w` is read back, and any `w` bytes are those of their value.
-/

set_option autoImplicit false

namespace DeskLink.Lib

/-- The last `w` bytes of `n`, the most significant first. -/
def bigEndian : Nat → Nat → List UInt8
  | 0, _ => []
  | w + 1, n => UInt8.ofNat (n / 256 ^ w) :: bigEndian w n

def bigEndianValue : List UInt8 → Nat
  | [] => 0
  | b :: rest => b.toNat * 256 ^ rest.length + bigEndianValue rest

@[simp] theorem length_bigEndian (w n : Nat) : (bigEndian w n).length = w := by
  induction w with
  | zero => rfl
  | succ w ih => rw [bigEndian, List.length_cons, ih]

theorem bigEndianValue_lt (l : List UInt8) : bigEndianValue l < 256 ^ l.length := by
  induction l with
  | nil => simp [bigEndianValue]
  | cons b l ih =>
    have hb : b.toNat + 1 ≤ 256 := b.toNat_lt
    calc b.toNat * 256 ^ l.length + bigEndianValue l
        < b.toNat * 256 ^ l.length + 256 ^ l.length := Nat.add_lt_add_left ih _
      _ = (b.toNat + 1) * 256 ^ l.length := by ring
      _ ≤ 256 * 256 ^ l.length := Nat.mul_le_mul_right _ hb
      _ = 256 ^ (b :: l).length := by rw [List.length_cons, pow_succ']

theorem bigEndianValue_bigEndian (w n : Nat) : bigEndianValue (bigEndian w n) = n % 256 ^ w := by
  induction w with
  | zero => simp [bigEndian, bigEndianValue, Nat.mod_one]
  | succ w ih =>
    have hbyte : (UInt8.ofNat (n / 256 ^ w)).toNat = n / 256 ^ w % 256 := by simp
    rw [bigEndian, bigEndianValue, length_bigEndian, ih, hbyte, pow_succ, Nat.mod_mul]
    ring

/-- Only the last `w` bytes of a number show. -/
theorem bigEndian_add_mul (w n k : Nat) : bigEndian w (n + 256 ^ w * k) = bigEndian w n := by
  induction w generalizing k with
  | zero => rfl
  | succ w ih =>
    have hdiv : (n + 256 ^ (w + 1) * k) / 256 ^ w = n / 256 ^ w + 256 * k := by
      rw [pow_succ, mul_assoc, Nat.add_mul_div_left _ _ (pow_pos (by decide) w)]
    have hrest : bigEndian w (n + 256 ^ (w + 1) * k) = bigEndian w n := by
      rw [pow_succ, mul_assoc]
      exact ih (256 * k)
    rw [bigEndian, bigEndian, hdiv, hrest]
    congr 1
    apply UInt8.toNat_inj.mp
    simp

theorem bigEndian_bigEndianValue (l : List UInt8) :
    bigEndian l.length (bigEndianValue l) = l := by
  induction l with
  | nil => rfl
  | cons b l ih =>
    have hlt := bigEndianValue_lt l
    have hdiv : bigEndianValue (b :: l) / 256 ^ l.length = b.toNat := by
      rw [bigEndianValue, Nat.add_comm, Nat.add_mul_div_right _ _ (pow_pos (by decide) _),
        Nat.div_eq_of_lt hlt, Nat.zero_add]
    have hrest : bigEndian l.length (bigEndianValue (b :: l)) = l := by
      rw [bigEndianValue, Nat.add_comm, Nat.mul_comm, bigEndian_add_mul]
      exact ih
    rw [List.length_cons, bigEndian, hdiv, hrest, UInt8.ofNat_toNat]

/-- One byte, as a field. -/
theorem take_one {α : Type} (l : List α) (i : Nat) (d : α) (h : i < l.length) :
    (l.drop i).take 1 = [l.getD i d] := by
  rw [List.drop_eq_getElem_cons h, List.getD_eq_getElem?_getD, List.getElem?_eq_getElem h]
  rfl

end DeskLink.Lib
