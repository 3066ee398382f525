import Mathlib.Tactic

/-!
# `DeskLink.Lib.Digits`: digits, read back

`Nat.toDigits b n` writes `n` with the characters `0-9a-f`, for a base up to
16. `valueOf` reads such digits, and zeros in front change nothing.

* `valueOf_toDigits`, and from it `padded_inj`: a number is known from its
  digits, padded or not.
-/

set_option autoImplicit false

namespace DeskLink.Lib

/-- What a digit stands for. -/
def digitValue (c : Char) : Nat := if c.toNat < 97 then c.toNat - 48 else c.toNat - 87

theorem digitValue_digitChar {d : Nat} (h : d < 16) : digitValue d.digitChar = d := by
  have hall : ∀ d : Fin 16, digitValue d.val.digitChar = d.val := by decide
  exact hall ⟨d, h⟩

/-- The number that digits stand for. -/
def valueOf (b : Nat) (digits : List Char) : Nat :=
  digits.foldl (fun n c => b * n + digitValue c) 0

theorem valueOf_concat (b : Nat) (digits : List Char) (c : Char) :
    valueOf b (digits ++ [c]) = b * valueOf b digits + digitValue c := by
  simp [valueOf]

theorem valueOf_toDigits {b : Nat} (hone : 1 < b) (hb : b ≤ 16) (n : Nat) :
    valueOf b (Nat.toDigits b n) = n := by
  -- Digit by digit from the last.
  induction n using Nat.strong_induction_on with
  | _ n ih =>
    rcases Nat.lt_or_ge n b with hlt | hge
    · rw [Nat.toDigits_of_lt_base hlt]
      show b * 0 + digitValue n.digitChar = n
      rw [digitValue_digitChar (by omega)]
      omega
    · have hless : n / b < n := Nat.div_lt_self (by omega) hone
      have hmod : n % b < b := Nat.mod_lt n (by omega)
      rw [Nat.toDigits_of_base_le hone hge, valueOf_concat, ih _ hless,
        digitValue_digitChar (by omega)]
      exact Nat.div_add_mod n b

theorem valueOf_zeros (b k : Nat) (digits : List Char) :
    valueOf b (List.replicate k '0' ++ digits) = valueOf b digits := by
  induction k with
  | zero => rfl
  | succ k ih =>
    rw [← ih]
    show (List.replicate k '0' ++ digits).foldl _ (b * 0 + digitValue '0') = _
    have hzero : b * 0 + digitValue '0' = 0 := by simp [digitValue]
    rw [hzero]
    rfl

/-- Digits padded with zeros. -/
theorem padded_inj {b m n k l : Nat} (hone : 1 < b) (hb : b ≤ 16)
    (h : List.replicate k '0' ++ Nat.toDigits b m = List.replicate l '0' ++ Nat.toDigits b n) :
    m = n := by
  have hvalue := congrArg (valueOf b) h
  simpa [valueOf_zeros, valueOf_toDigits hone hb] using hvalue

end DeskLink.Lib
