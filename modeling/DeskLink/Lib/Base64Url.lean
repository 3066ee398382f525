import DeskLink.Lib.Base64

/-!
# `DeskLink.Lib.Base64Url`: reading the alphabet for URLs

`decodeUrlChars` reads what `encodeUrl` writes: groups of four characters of
six bits, and a last group of two or three. The bits that no byte takes are
zero. What is written holds no newline (`newline_not_mem_encodeUrl`).
-/

set_option autoImplicit false

namespace DeskLink.Lib.Base64

/-- The six bits of a character. -/
def urlValue (c : Char) : Option Nat :=
  if c = '-' then some 62 else if c = '_' then some 63
  else if c = '+' ∨ c = '/' then none else value c

def decodeUrlChars : List Char → Option (List UInt8)
  | [] => some []
  | [_] => none
  | [w, x] => do
    let w ← urlValue w
    let x ← urlValue x
    guard (x % 16 = 0)
    return [UInt8.ofNat (w * 4 + x / 16)]
  | [w, x, y] => do
    let w ← urlValue w
    let x ← urlValue x
    let y ← urlValue y
    guard (y % 4 = 0)
    return [UInt8.ofNat (w * 4 + x / 16), UInt8.ofNat (x % 16 * 16 + y / 4)]
  | w :: x :: y :: z :: rest => do
    let w ← urlValue w
    let x ← urlValue x
    let y ← urlValue y
    let z ← urlValue z
    let rest ← decodeUrlChars rest
    return UInt8.ofNat (w * 4 + x / 16) :: UInt8.ofNat (x % 16 * 16 + y / 4)
      :: UInt8.ofNat (y % 4 * 64 + z) :: rest

theorem newline_not_mem_encodeUrl (bytes : List UInt8) : '\n' ∉ (encodeUrl bytes).toList := by
  have hplain := newline_not_mem_encode bytes
  rw [encode, String.toList_ofList] at hplain
  rw [encodeUrl, String.toList_ofList]
  intro hmem
  obtain ⟨c, hc, hsymbol⟩ := List.mem_filterMap.mp hmem
  unfold urlSymbol at hsymbol
  split_ifs at hsymbol
  · cases hsymbol
  · cases hsymbol
  · cases hsymbol
    exact hplain hc

end DeskLink.Lib.Base64
