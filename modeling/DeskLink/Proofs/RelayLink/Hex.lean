import DeskLink.RelayLink.Crypto

/-!
# `DeskLink.Proofs.RelayLink.Hex`: fingerprints in a text

Two digits for each byte: `hex_inj` and `newline_not_mem_hex`.
-/

set_option autoImplicit false

namespace DeskLink.RelayLink

theorem hexDigit_inj {m n : Nat} (hm : m < 16) (hn : n < 16) (h : hexDigit m = hexDigit n) :
    m = n := by
  have hall : ∀ a b : Fin 16, hexDigit a.val = hexDigit b.val → a = b := by decide +kernel
  exact congrArg Fin.val (hall ⟨m, hm⟩ ⟨n, hn⟩ h)

theorem hexDigit_ne_newline (n : Nat) : '\n' ≠ hexDigit n := by
  unfold hexDigit
  cases hn : ("0123456789abcdef".toList)[n]? with
  | none => decide
  | some c =>
    intro heq
    have hmem : '\n' ∈ "0123456789abcdef".toList := by
      rw [heq]
      exact List.mem_of_getElem? hn
    exact absurd hmem (by decide)

theorem toList_hex (bytes : Bytes) : (hex bytes).toList =
    bytes.flatMap (fun byte => [hexDigit (byte.toNat / 16), hexDigit (byte.toNat % 16)]) :=
  String.toList_ofList

/-- No two lists of bytes are written alike. -/
theorem hex_inj {a b : Bytes} (h : hex a = hex b) : a = b := by
  have hlist := congrArg String.toList h
  rw [toList_hex, toList_hex] at hlist
  clear h
  induction a generalizing b with
  | nil =>
    cases b with
    | nil => rfl
    | cons y b => cases hlist
  | cons x a ih =>
    cases b with
    | nil => cases hlist
    | cons y b =>
      simp only [List.flatMap_cons, List.cons_append, List.nil_append, List.cons.injEq] at hlist
      obtain ⟨hhigh, hlow, hrest⟩ := hlist
      have hx := x.toNat_lt
      have hy := y.toNat_lt
      have hdiv := hexDigit_inj (by omega) (by omega) hhigh
      have hmod := hexDigit_inj (by omega) (by omega) hlow
      have hbyte : x.toNat = y.toNat := by omega
      rw [UInt8.toNat_inj.mp hbyte, ih hrest]

theorem newline_not_mem_hex (bytes : Bytes) : '\n' ∉ (hex bytes).toList := by
  rw [toList_hex]
  simp [hexDigit_ne_newline]

end DeskLink.RelayLink
