import Mathlib.Tactic

/-!
# `DeskLink.Contacts.Vcard`: the texts of a vCard

`unfold`, `unescape` and `split_unescaped` of `src/device_links/contacts.rs`, on
characters. A folded line goes on in the next one, which starts with a space or a tab.
-/

set_option autoImplicit false

namespace DeskLink.Contacts

/-- `str::split` at line feeds, `line` being what was read of the first line. -/
def splitLines (line : List Char) : List Char → List (List Char)
  | [] => [line]
  | c :: text => if c = '\n' then line :: splitLines [] text else splitLines (line ++ [c]) text

/-- `strip_suffix('\r')`, if there is one. -/
def stripReturn (line : List Char) : List Char :=
  if line.getLast? = some '\r' then line.dropLast else line

/-- One more line: it continues the last, or is a line of its own. -/
def unfoldStep (lines : List (List Char)) (line : List Char) : List (List Char) :=
  match line, lines.getLast? with
  | c :: rest, some last =>
    if c = ' ' ∨ c = '\t' then lines.dropLast ++ [last ++ rest] else lines ++ [line]
  | [], _ | _, none => lines ++ [line]

def unfold (card : List Char) : List (List Char) :=
  ((splitLines [] card).map stripReturn).foldl unfoldStep []

/-- `unescape`, with a flag that says that a backslash came. -/
def unescapeFrom : Bool → List Char → List Char
  | _, [] => []
  | true, c :: text => (if c = 'n' ∨ c = 'N' then '\n' else c) :: unescapeFrom false text
  | false, c :: text =>
    if c = '\\' then unescapeFrom true text else c :: unescapeFrom false text

def unescape (value : List Char) : List Char := unescapeFrom false value

/-- The loop of `split_unescaped`, `part` being the last part so far. -/
def splitFrom (separator : Char) (escaped : Bool) (part : List Char) :
    List Char → List (List Char)
  | [] => [part]
  | c :: text =>
    if escaped then splitFrom separator false (part ++ ['\\', c]) text
    else if c = '\\' then splitFrom separator true part text
    else if c = separator then part :: splitFrom separator false [] text
    else splitFrom separator false (part ++ [c]) text

/-- `value` split at unescaped `separator`s, each part unescaped. -/
def splitUnescaped (value : List Char) (separator : Char) : List (List Char) :=
  (splitFrom separator false [] value).map unescape

end DeskLink.Contacts
