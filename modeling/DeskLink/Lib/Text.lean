import Mathlib.Tactic

/-!
# `DeskLink.Lib.Text`: numbers in a text

A decimal number holds digits and a sign, and no two numbers are written
alike. With `append_cons_inj`, a text that ends in a mark and a number can
be read back.
-/

set_option autoImplicit false

namespace DeskLink.Lib

theorem toList_toString_ofNat (n : Nat) :
    (toString (Int.ofNat n)).toList = Nat.toDigits 10 n := Nat.toList_repr

theorem toList_toString_negSucc (n : Nat) :
    (toString (Int.negSucc n)).toList = '-' :: Nat.toDigits 10 (n + 1) := by
  show ("-" ++ Nat.repr (n + 1)).toList = _
  rw [String.toList_append, Nat.toList_repr]
  rfl

theorem isDigit_of_mem_decimal {c : Char} {n : Nat} (h : c ∈ Nat.toDigits 10 n) : c.isDigit :=
  Nat.isDigit_of_mem_toDigits (by decide) (by decide) h

/-- The characters of a decimal number. -/
theorem mem_toString_int {c : Char} {m : Int} (h : c ∈ (toString m).toList) :
    c = '-' ∨ c.isDigit := by
  cases m with
  | ofNat n =>
    rw [toList_toString_ofNat] at h
    exact Or.inr (isDigit_of_mem_decimal h)
  | negSucc n =>
    rw [toList_toString_negSucc, List.mem_cons] at h
    exact h.imp id isDigit_of_mem_decimal

theorem toDigits_inj {m n : Nat} (h : Nat.toDigits 10 m = Nat.toDigits 10 n) : m = n := by
  have hvalue := congrArg (Nat.ofDigitChars 10 · 0) h
  simpa using hvalue

theorem toString_int_inj {m k : Int} (h : toString m = toString k) : m = k := by
  have hsign : ∀ a b : Nat, Nat.toDigits 10 a ≠ '-' :: Nat.toDigits 10 b := by
    intro a b heq
    have hdigit : ('-' : Char).isDigit :=
      isDigit_of_mem_decimal (n := a) (heq ▸ List.mem_cons_self ..)
    exact absurd hdigit (by decide)
  have hlist := congrArg String.toList h
  cases m with
  | ofNat m =>
    cases k with
    | ofNat k =>
      rw [toList_toString_ofNat, toList_toString_ofNat] at hlist
      rw [toDigits_inj hlist]
    | negSucc k =>
      rw [toList_toString_ofNat, toList_toString_negSucc] at hlist
      exact absurd hlist (hsign m (k + 1))
  | negSucc m =>
    cases k with
    | ofNat k =>
      rw [toList_toString_ofNat, toList_toString_negSucc] at hlist
      exact absurd hlist.symm (hsign k (m + 1))
    | negSucc k =>
      rw [toList_toString_negSucc, toList_toString_negSucc] at hlist
      have := toDigits_inj (List.cons.inj hlist).2
      omega

/-- A list is cut at the first place where a mark stands. -/
theorem append_cons_inj_first {α : Type*} {c : α} {a b t u : List α} (ha : c ∉ a) (hb : c ∉ b)
    (h : a ++ c :: t = b ++ c :: u) : a = b ∧ t = u := by
  induction a generalizing b with
  | nil =>
    cases b with
    | nil => exact ⟨rfl, (List.cons.inj h).2⟩
    | cons d b => exact absurd (List.mem_cons.mpr (Or.inl (List.cons.inj h).1)) hb
  | cons d a ih =>
    cases b with
    | nil => exact absurd (List.mem_cons.mpr (Or.inl (List.cons.inj h).1.symm)) ha
    | cons d' b =>
      obtain ⟨rfl, htail⟩ := List.cons.inj h
      obtain ⟨rfl, rfl⟩ := ih (List.not_mem_of_not_mem_cons ha) (List.not_mem_of_not_mem_cons hb)
        htail
      exact ⟨rfl, rfl⟩

/-- A list is cut at the last place where a mark stands. -/
theorem append_cons_inj {α : Type*} {c : α} {a b t u : List α} (ht : c ∉ t) (hu : c ∉ u)
    (h : a ++ c :: t = b ++ c :: u) : a = b ∧ t = u := by
  rcases List.append_eq_append_iff.mp h with ⟨l, hb, htail⟩ | ⟨l, ha, htail⟩
  · cases l with
    | nil =>
      rw [List.append_nil] at hb
      exact ⟨hb.symm, (List.cons.inj htail).2⟩
    | cons d l =>
      rw [(List.cons.inj htail).2] at ht
      exact absurd (List.mem_append_right l (List.mem_cons_self ..)) ht
  · cases l with
    | nil =>
      rw [List.append_nil] at ha
      exact ⟨ha, (List.cons.inj htail).2.symm⟩
    | cons d l =>
      rw [(List.cons.inj htail).2] at hu
      exact absurd (List.mem_append_right l (List.mem_cons_self ..)) hu

end DeskLink.Lib
