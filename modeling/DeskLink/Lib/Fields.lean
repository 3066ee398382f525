import DeskLink.Lib.Text
import DeskLink.Lib.Utf8

/-!
# `DeskLink.Lib.Fields`: fields that are read back from a text

Three ways to put a field into a text so that the text after it does not matter:
a number before a mark (`decimal_append_inj`), a text after its length in bytes
(`sized_append_inj`), and a text in quotes with JSON's escapes
(`jsonString_append_inj`). Each theorem says that two such texts are equal only if
the fields are, and what follows them is.
-/

set_option autoImplicit false

namespace DeskLink.Lib

variable {c : Char} {r s t u : String} {n : Nat}

/-! ### Numbers -/

/-- A number ends where a mark stands that is neither a digit nor a sign. -/
theorem decimal_append_inj {m k : Int} (hc : c ≠ '-') (hdigit : c.isDigit = false)
    (h : toString m ++ (String.singleton c ++ r) = toString k ++ (String.singleton c ++ s)) :
    m = k ∧ r = s := by
  have hnot : ∀ n : Int, c ∉ (toString n).toList := by
    intro n hmem
    rcases mem_toString_int hmem with heq | hisDigit
    · exact hc heq
    · rw [hdigit] at hisDigit
      cases hisDigit
  have hlist := congrArg String.toList h
  rw [String.toList_append, String.toList_append, String.toList_append, String.toList_append,
    String.toList_singleton] at hlist
  obtain ⟨hnumber, hrest⟩ := append_cons_inj_first (hnot m) (hnot k) hlist
  exact ⟨toString_int_inj (String.toList_inj.mp hnumber), String.toList_inj.mp hrest⟩

/-! ### Texts after their length -/

theorem utf8Bytes_append (s t : String) : utf8Bytes (s ++ t) = utf8Bytes s ++ utf8Bytes t := by
  simp [utf8Bytes]

theorem length_utf8Bytes (s : String) : (utf8Bytes s).length = s.utf8ByteSize := by
  show s.toUTF8.data.toList.length = s.toUTF8.data.size
  exact Array.length_toList

/-- A text of known size in bytes is cut off. -/
theorem append_inj_of_size (hsize : s.utf8ByteSize = t.utf8ByteSize) (h : s ++ r = t ++ u) :
    s = t ∧ r = u := by
  have hbytes := congrArg utf8Bytes h
  rw [utf8Bytes_append, utf8Bytes_append] at hbytes
  obtain ⟨hfirst, hrest⟩ := List.append_inj hbytes
    (by rw [length_utf8Bytes, length_utf8Bytes, hsize])
  exact ⟨utf8Bytes_inj hfirst, utf8Bytes_inj hrest⟩

/-- A text after its length in bytes. -/
def sized (s : String) : String := toString s.utf8ByteSize ++ ":" ++ s

theorem sized_append_inj (h : sized s ++ r = sized t ++ u) : s = t ∧ r = u := by
  have hcast : ∀ n : Nat, toString n = toString (n : Int) := fun _ => rfl
  unfold sized at h
  rw [hcast, hcast, String.append_assoc, String.append_assoc, String.append_assoc,
    String.append_assoc] at h
  obtain ⟨hsize, hrest⟩ := decimal_append_inj (c := ':') (by decide) (by decide) h
  exact append_inj_of_size (Int.ofNat.inj hsize) hrest

/-- Texts one after the other, each after its length. -/
def sizedAll (values : List String) : String := (values.map sized).foldr (· ++ ·) ""

theorem sizedAll_inj {values other : List String} (hlength : values.length = other.length)
    (h : sizedAll values = sizedAll other) : values = other := by
  induction values generalizing other with
  | nil => exact (List.length_eq_zero_iff.mp hlength.symm).symm
  | cons value values ih =>
    cases other with
    | nil => cases hlength
    | cons value' other =>
      obtain ⟨hvalue, hrest⟩ := sized_append_inj h
      rw [hvalue, ih (Nat.succ.inj hlength) hrest]

/-! ### Texts in quotes -/

def quote : Char := Char.ofNat 34

def backslash : Char := Char.ofNat 92

/-- The letter of a character with a short escape. -/
def shortEscape (n : Nat) : Option Char :=
  if n = 34 then some quote
  else if n = 92 then some backslash
  else if n = 8 then some 'b'
  else if n = 9 then some 't'
  else if n = 10 then some 'n'
  else if n = 12 then some 'f'
  else if n = 13 then some 'r'
  else none

/-- A character in a JSON text: the control characters, the quote and the
backslash are escaped. -/
def escapeChar (c : Char) : List Char :=
  match shortEscape c.toNat with
  | some e => [backslash, e]
  | none =>
    if c.toNat < 32 then
      [backslash, 'u', '0', '0', Nat.digitChar (c.toNat / 16), Nat.digitChar (c.toNat % 16)]
    else [c]

/-- A text as a JSON text, quotes included. -/
def jsonString (s : String) : String :=
  String.ofList (quote :: (s.toList.flatMap escapeChar ++ [quote]))

theorem digitChar_inj {m : Nat} (hm : m < 16) (hn : n < 16)
    (h : Nat.digitChar m = Nat.digitChar n) : m = n := by
  have hall : ∀ a b : Fin 16, Nat.digitChar a.val = Nat.digitChar b.val → a = b := by
    decide +kernel
  exact congrArg Fin.val (hall ⟨m, hm⟩ ⟨n, hn⟩ h)

/-- The code of the letter of a short escape. -/
def shortOf (e : Char) : Nat :=
  if e = quote then 34 else if e = backslash then 92 else if e = 'b' then 8
  else if e = 't' then 9 else if e = 'n' then 10 else if e = 'f' then 12 else 13

theorem shortOf_shortEscape {e : Char} (h : shortEscape n = some e) : shortOf e = n ∧ e ≠ 'u' := by
  unfold shortEscape at h
  split_ifs at h with h1 h2 h3 h4 h5 h6 h7
  all_goals
    cases h
    subst n
    decide

/-- How a character is written: in short, by its number, or as it is. -/
theorem escapeChar_cases (c : Char) :
    (∃ e, shortEscape c.toNat = some e ∧ escapeChar c = [backslash, e]) ∨
      (c.toNat < 32 ∧ escapeChar c =
        [backslash, 'u', '0', '0', Nat.digitChar (c.toNat / 16), Nat.digitChar (c.toNat % 16)]) ∨
      (c ≠ quote ∧ c ≠ backslash ∧ escapeChar c = [c]) := by
  unfold escapeChar
  cases hshort : shortEscape c.toNat with
  | some e => exact .inl ⟨e, rfl, rfl⟩
  | none =>
    simp only
    split
    · rename_i hlt
      exact .inr (.inl ⟨hlt, rfl⟩)
    · refine .inr (.inr ⟨?_, ?_, rfl⟩)
      · rintro rfl
        cases hshort
      · rintro rfl
        cases hshort

/-- No written character starts with a quote. -/
theorem escapeChar_ne_quote (c : Char) (r s : List Char) : escapeChar c ++ r ≠ quote :: s := by
  have hne : backslash ≠ quote := by decide
  intro h
  rcases escapeChar_cases c with ⟨e, _, heq⟩ | ⟨_, heq⟩ | ⟨hquote, _, heq⟩
  · rw [heq] at h
    exact hne (List.cons.inj h).1
  · rw [heq] at h
    exact hne (List.cons.inj h).1
  · rw [heq] at h
    exact hquote (List.cons.inj h).1

/-- A written character is read back, whatever follows. -/
theorem escapeChar_append_inj {d : Char} {r s : List Char}
    (h : escapeChar c ++ r = escapeChar d ++ s) : c = d ∧ r = s := by
  rcases escapeChar_cases c with ⟨e, he, hc⟩ | ⟨hlt, hc⟩ | ⟨_, hplain, hc⟩ <;>
    rcases escapeChar_cases d with ⟨f, hf, hd⟩ | ⟨hlt', hd⟩ | ⟨_, hplain', hd⟩ <;>
    rw [hc, hd] at h <;>
    simp only [List.cons_append, List.nil_append, List.cons.injEq, true_and] at h
  · -- Two short escapes.
    obtain ⟨rfl, hrest⟩ := h
    refine ⟨Char.toNat_inj.mp ?_, hrest⟩
    rw [← (shortOf_shortEscape he).1, ← (shortOf_shortEscape hf).1]
  · exact absurd h.1 (shortOf_shortEscape he).2
  · exact absurd h.1.symm hplain'
  · exact absurd h.1.symm (shortOf_shortEscape hf).2
  · -- Two control characters.
    obtain ⟨hhigh, hlow, hrest⟩ := h
    have hdiv := digitChar_inj (by omega) (by omega) hhigh
    have hmod := digitChar_inj (by omega) (by omega) hlow
    exact ⟨Char.toNat_inj.mp (by omega), hrest⟩
  · exact absurd h.1.symm hplain'
  · exact absurd h.1 hplain
  · exact absurd h.1 hplain
  · exact h

theorem flatMap_escapeChar_inj {a b r s : List Char}
    (h : a.flatMap escapeChar ++ quote :: r = b.flatMap escapeChar ++ quote :: s) :
    a = b ∧ r = s := by
  induction a generalizing b with
  | nil =>
    cases b with
    | nil => exact ⟨rfl, (List.cons.inj h).2⟩
    | cons d b =>
      rw [List.flatMap_cons, List.append_assoc] at h
      exact absurd h.symm (escapeChar_ne_quote d _ _)
  | cons c a ih =>
    cases b with
    | nil =>
      rw [List.flatMap_cons, List.append_assoc] at h
      exact absurd h (escapeChar_ne_quote c _ _)
    | cons d b =>
      rw [List.flatMap_cons, List.flatMap_cons, List.append_assoc, List.append_assoc] at h
      obtain ⟨rfl, hrest⟩ := escapeChar_append_inj h
      obtain ⟨rfl, hend⟩ := ih hrest
      exact ⟨rfl, hend⟩

/-- A JSON text ends at its closing quote. -/
theorem jsonString_append_inj (h : jsonString s ++ r = jsonString t ++ u) : s = t ∧ r = u := by
  have hlist := congrArg String.toList h
  simp only [jsonString, String.toList_append, String.toList_ofList, List.cons_append,
    List.append_assoc, List.nil_append, List.cons.injEq, true_and] at hlist
  obtain ⟨htext, hrest⟩ := flatMap_escapeChar_inj hlist
  exact ⟨String.toList_inj.mp htext, String.toList_inj.mp hrest⟩

end DeskLink.Lib
