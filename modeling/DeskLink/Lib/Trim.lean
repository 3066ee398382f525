import Mathlib.Data.List.DropRight
import Mathlib.Tactic

/-!
# `DeskLink.Lib.Trim`: white space and control characters

The control characters, the characters that have the Unicode property `White_Space`, and a
text without those at its two ends.
-/

set_option autoImplicit false

namespace DeskLink.Lib

/-- The characters of the general category `Cc`. -/
def isControl (c : Char) : Bool := c.toNat < 0x20 || (0x7f ≤ c.toNat && c.toNat < 0xa0)

/-- The `White_Space` characters. -/
def isWhitespace (c : Char) : Bool :=
  c.toNat ∈ [0x9, 0xA, 0xB, 0xC, 0xD, 0x20, 0x85, 0xA0, 0x1680, 0x2000, 0x2001, 0x2002, 0x2003,
    0x2004, 0x2005, 0x2006, 0x2007, 0x2008, 0x2009, 0x200A, 0x2028, 0x2029, 0x202F, 0x205F, 0x3000]

/-- A text without the white space at its ends. -/
def trim (text : List Char) : List Char := (text.dropWhile isWhitespace).rdropWhile isWhitespace

/-- What a text has behind its trimmed end is white space. -/
theorem rdropWhile_append_whitespace (text : List Char) :
    ∃ rest, text = text.rdropWhile isWhitespace ++ rest ∧ ∀ c ∈ rest, isWhitespace c = true := by
  refine ⟨text.rtakeWhile isWhitespace, List.rdropWhile_append_rtakeWhile.symm, fun c hc => ?_⟩
  exact List.mem_rtakeWhile_imp hc

end DeskLink.Lib
