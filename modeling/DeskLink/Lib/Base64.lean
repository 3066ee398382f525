import Mathlib.Tactic

/-!
# `DeskLink.Lib.Base64`: the standard alphabet, padded

Three bytes are written as four characters of six bits each. The last
group may have one or two bytes; its missing characters are `=`, and the
bits that no byte fills are zero. `decode` takes no other text.

* `decode_encode`: what was written is read back.
* `encode_inj` and `newline_not_mem_encode`, for texts made of such lines.

`encodeUrl` is the alphabet for URLs and file names, not padded.
-/

set_option autoImplicit false

namespace DeskLink.Lib.Base64

def alphabet : List Char :=
  "ABCDEFGHIJKLMNOPQRSTUVWXYZabcdefghijklmnopqrstuvwxyz0123456789+/".toList

/-- The character of six bits. -/
def symbol (v : Nat) : Char := (alphabet[v]?).getD 'A'

/-- The six bits of a character. -/
def value (c : Char) : Option Nat :=
  if 'A' ≤ c ∧ c ≤ 'Z' then some (c.toNat - 65)
  else if 'a' ≤ c ∧ c ≤ 'z' then some (c.toNat - 71)
  else if '0' ≤ c ∧ c ≤ '9' then some (c.toNat + 4)
  else if c = '+' then some 62
  else if c = '/' then some 63
  else none

def encodeChars : List UInt8 → List Char
  | [] => []
  | [a] => [symbol (a.toNat / 4), symbol (a.toNat % 4 * 16), '=', '=']
  | [a, b] =>
    [symbol (a.toNat / 4), symbol (a.toNat % 4 * 16 + b.toNat / 16), symbol (b.toNat % 16 * 4), '=']
  | a :: b :: c :: rest =>
    symbol (a.toNat / 4) :: symbol (a.toNat % 4 * 16 + b.toNat / 16)
      :: symbol (b.toNat % 16 * 4 + c.toNat / 64) :: symbol (c.toNat % 64) :: encodeChars rest

def decodeChars : List Char → Option (List UInt8)
  | [] => some []
  | [w, x, '=', '='] => do
    let w ← value w
    let x ← value x
    guard (x % 16 = 0)
    return [UInt8.ofNat (w * 4 + x / 16)]
  | [w, x, y, '='] => do
    let w ← value w
    let x ← value x
    let y ← value y
    guard (y % 4 = 0)
    return [UInt8.ofNat (w * 4 + x / 16), UInt8.ofNat (x % 16 * 16 + y / 4)]
  | w :: x :: y :: z :: rest => do
    let w ← value w
    let x ← value x
    let y ← value y
    let z ← value z
    let rest ← decodeChars rest
    return UInt8.ofNat (w * 4 + x / 16) :: UInt8.ofNat (x % 16 * 16 + y / 4)
      :: UInt8.ofNat (y % 4 * 64 + z) :: rest
  | _ => none

def encode (bytes : List UInt8) : String := String.ofList (encodeChars bytes)

def decode (text : String) : Option (List UInt8) := decodeChars text.toList

/-- The same character in the URL-safe alphabet; the padding is left out. -/
def urlSymbol (c : Char) : Option Char :=
  if c = '=' then none else if c = '+' then some '-' else if c = '/' then some '_' else some c

def encodeUrl (bytes : List UInt8) : String :=
  String.ofList ((encodeChars bytes).filterMap urlSymbol)

/-! ### Characters -/

theorem value_symbol {v : Nat} (hv : v < 64) : value (symbol v) = some v := by
  have hall : ∀ w : Fin 64, value (symbol w.val) = some w.val := by decide +kernel
  exact hall ⟨v, hv⟩

theorem symbol_mem {v : Nat} : symbol v ∈ alphabet := by
  unfold symbol
  cases hv : alphabet[v]? with
  | none => decide
  | some c => exact List.mem_of_getElem? hv

theorem symbol_ne {v : Nat} {c : Char} (hc : c ∉ alphabet) : symbol v ≠ c := by
  intro heq
  exact hc (heq ▸ symbol_mem)

/-! ### Reading back -/

theorem byte_eq {a : UInt8} {n : Nat} (h : n = a.toNat) : UInt8.ofNat n = a := by
  rw [h]
  exact UInt8.ofNat_toNat

theorem decodeChars_encodeChars (bytes : List UInt8) :
    decodeChars (encodeChars bytes) = some bytes := by
  have hpad : ∀ v, symbol v ≠ '=' := fun v => symbol_ne (by decide)
  fun_induction encodeChars bytes with
  | case1 => rfl
  | case2 a =>
    have ha := a.toNat_lt
    have hw := value_symbol (show a.toNat / 4 < 64 by omega)
    have hx := value_symbol (show a.toNat % 4 * 16 < 64 by omega)
    have hbyte : UInt8.ofNat (a.toNat / 4 * 4 + a.toNat % 4 * 16 / 16) = a := byte_eq (by omega)
    rw [decodeChars]
    simp only [hw, hx, Option.bind_eq_bind, Option.bind_some, hbyte]
    simp
  | case3 a b =>
    have ha := a.toNat_lt
    have hb := b.toNat_lt
    have hw := value_symbol (show a.toNat / 4 < 64 by omega)
    have hx := value_symbol (show a.toNat % 4 * 16 + b.toNat / 16 < 64 by omega)
    have hy := value_symbol (show b.toNat % 16 * 4 < 64 by omega)
    have hfirst : UInt8.ofNat (a.toNat / 4 * 4 + (a.toNat % 4 * 16 + b.toNat / 16) / 16) = a :=
      byte_eq (by omega)
    have hsecond : UInt8.ofNat ((a.toNat % 4 * 16 + b.toNat / 16) % 16 * 16
        + b.toNat % 16 * 4 / 4) = b := byte_eq (by omega)
    rw [decodeChars]
    · simp only [hw, hx, hy, Option.bind_eq_bind, Option.bind_some, hfirst, hsecond]
      simp
    · exact hpad _
  | case4 a b c rest ih =>
    have ha := a.toNat_lt
    have hb := b.toNat_lt
    have hc := c.toNat_lt
    have hw := value_symbol (show a.toNat / 4 < 64 by omega)
    have hx := value_symbol (show a.toNat % 4 * 16 + b.toNat / 16 < 64 by omega)
    have hy := value_symbol (show b.toNat % 16 * 4 + c.toNat / 64 < 64 by omega)
    have hz := value_symbol (show c.toNat % 64 < 64 by omega)
    have hfirst : UInt8.ofNat (a.toNat / 4 * 4 + (a.toNat % 4 * 16 + b.toNat / 16) / 16) = a :=
      byte_eq (by omega)
    have hsecond : UInt8.ofNat ((a.toNat % 4 * 16 + b.toNat / 16) % 16 * 16
        + (b.toNat % 16 * 4 + c.toNat / 64) / 4) = b := byte_eq (by omega)
    have hthird : UInt8.ofNat ((b.toNat % 16 * 4 + c.toNat / 64) % 4 * 64 + c.toNat % 64) = c :=
      byte_eq (by omega)
    rw [decodeChars]
    · simp only [hw, hx, hy, hz, ih, Option.bind_eq_bind, Option.bind_some, hfirst, hsecond, hthird]
      rfl
    · intro _ heq
      exact absurd heq (hpad _)
    · intro heq
      exact absurd heq (hpad _)

/-- What was written is read back. -/
theorem decode_encode (bytes : List UInt8) : decode (encode bytes) = some bytes := by
  rw [decode, encode, String.toList_ofList]
  exact decodeChars_encodeChars bytes

theorem encode_inj {a b : List UInt8} (h : encode a = encode b) : a = b := by
  have hdecode := congrArg decode h
  rw [decode_encode, decode_encode] at hdecode
  exact Option.some.inj hdecode

theorem newline_not_mem_encode (bytes : List UInt8) : '\n' ∉ (encode bytes).toList := by
  have hsymbol : ∀ v, '\n' ≠ symbol v := fun v => (symbol_ne (by decide)).symm
  rw [encode, String.toList_ofList]
  fun_induction encodeChars bytes with
  | case1 => simp
  | case2 a => simp [hsymbol]
  | case3 a b => simp [hsymbol]
  | case4 a b c rest ih => simp [hsymbol, ih]

theorem encodeUrl_ne_empty {bytes : List UInt8} (h : bytes ≠ []) : encodeUrl bytes ≠ "" := by
  have hurl : ∀ v, ∃ c, urlSymbol (symbol v) = some c := by
    intro v
    have hpad : symbol v ≠ '=' := symbol_ne (by decide)
    unfold urlSymbol
    split
    · contradiction
    · split
      · exact ⟨_, rfl⟩
      · split
        · exact ⟨_, rfl⟩
        · exact ⟨_, rfl⟩
  have hfirst : ∃ v rest, encodeChars bytes = symbol v :: rest := by
    fun_cases encodeChars bytes with
    | case1 => exact absurd rfl h
    | case2 a => exact ⟨_, _, rfl⟩
    | case3 a b => exact ⟨_, _, rfl⟩
    | case4 a b c rest => exact ⟨_, _, rfl⟩
  obtain ⟨v, rest, hchars⟩ := hfirst
  obtain ⟨c, hc⟩ := hurl v
  intro hempty
  have htext := congrArg String.toList hempty
  rw [encodeUrl, String.toList_ofList, hchars, List.filterMap_cons_some hc] at htext
  simp at htext

end DeskLink.Lib.Base64
