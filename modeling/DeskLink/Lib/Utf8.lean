import Mathlib.Tactic

/-!
# `DeskLink.Lib.Utf8`: a text as its bytes

`utf8Bytes` are the bytes of a text and `utf8Text` reads them. Each undoes
the other, so a text is determined by its bytes.
-/

set_option autoImplicit false

namespace DeskLink.Lib

def utf8Bytes (s : String) : List UInt8 := s.toUTF8.data.toList

/-- The text of these bytes, if they are one. -/
def utf8Text (bytes : List UInt8) : Option String := String.fromUTF8? ⟨bytes.toArray⟩

theorem utf8Text_utf8Bytes (s : String) : utf8Text (utf8Bytes s) = some s := by
  have hbytes : (⟨(utf8Bytes s).toArray⟩ : ByteArray) = s.toByteArray := by
    simp [utf8Bytes]
  unfold utf8Text String.fromUTF8?
  rw [dif_pos (hbytes ▸ s.isValidUTF8)]
  exact congrArg some (String.toByteArray_inj.mp hbytes)

theorem utf8Bytes_of_utf8Text {bytes : List UInt8} {s : String} (h : utf8Text bytes = some s) :
    utf8Bytes s = bytes := by
  unfold utf8Text String.fromUTF8? at h
  split at h
  · rw [← Option.some.inj h]
    simp [utf8Bytes, String.fromUTF8]
  · cases h

theorem utf8Bytes_inj {s t : String} (h : utf8Bytes s = utf8Bytes t) : s = t := by
  have hs := utf8Text_utf8Bytes s
  rw [h, utf8Text_utf8Bytes] at hs
  exact (Option.some.inj hs).symm

end DeskLink.Lib
