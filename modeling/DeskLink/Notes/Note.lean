import DeskLink.Lib.Trim

/-!
# `DeskLink.Notes.Note`: notes, snippets and their wire size

The records of `src/device_links/notes.rs`. A note version is named by
its `modified` stamp, and lists the stamps of the versions it was made
from (`parent`, `ancestors`). `ancestorsAfter` is the rule for that list:
at most `maxAncestors` stamps, and when the list is cut the stamps a
phone is known to hold (or was sent) stay.

`Note.copyOf` is the conflicted copy of a losing version, under an id
both sides derive alike. `Note.label` is its title's first part.

The wire size of a record is the length of its JSON, `Note.jsonLength`.
Numbers are `i64` in the source and `Int` here; the one place where the
bound shows is `i64SaturatingSucc`. A Rust `&str` is compared by its
UTF-8 bytes, which orders strings by code points, as `String` does here.
-/

set_option autoImplicit false

namespace DeskLink.Notes

def maxIdChars : Nat := 128
def maxSnippets : Nat := 500
def maxSnippetBytes : Nat := 16 * 1024
def maxSnippetTitleChars : Nat := 120
def maxNotes : Nat := 2000
def maxNoteTitleChars : Nat := 200
def maxNoteBytes : Nat := 20 * 1024
/-- Ids per `fetch`. -/
def fetchIds : Nat := 100
def maxPacketBytes : Nat := 40 * 1024
/-- Entries kept, live and tombstones. -/
def maxSnippetEntries : Nat := maxSnippets * 2
def maxNoteEntries : Nat := maxNotes * 2
/-- Items read from one `items` or `ack` packet. -/
def maxItemsPerPacket : Nat := 200
def maxIndexEntries : Nat := maxNoteEntries
/-- How many earlier versions a note names as ancestors. -/
def maxAncestors : Nat := 8
/-- Phones remembered per note. -/
def maxPeersPerNote : Nat := 3
/-- The most JSON bytes of index entries in one packet. -/
def indexBudget : Nat := 40 * 1024
/-- The `items` packet's own JSON around its items. -/
def packetOverhead : Nat := 256

def i64Max : Int := 9223372036854775807

/-- `i64::saturating_add(1)`. -/
def i64SaturatingSucc (n : Int) : Int := min (n + 1) i64Max

/-- What a conflicted copy's title ends with. -/
def copySuffix : String := "(conflicted copy)"

structure Snippet where
  id : String
  text : String
  title : String
  modified : Int
  deleted : Bool
deriving DecidableEq, Repr

structure Note where
  id : String
  title : String
  body : String
  pinned : Bool
  created : Int
  modified : Int
  /-- The `modified` of the version this one was edited from (0: none). -/
  parent : Int
  /-- The `modified` values this note had before, newest first. -/
  ancestors : List Int
  deleted : Bool
deriving DecidableEq, Repr

/-! ### Ancestors -/

/-- `before` and what it already listed, newest first. -/
def Note.chain (n : Note) : List Int := n.modified :: n.ancestors

/-- The ancestors of the version made from `before`. Past
`maxAncestors` of them, the stamps in `keep` stay and the rest are the
newest others. -/
def ancestorsAfter (before : Note) (keep : List Int) : List Int :=
  let chain := before.chain
  if chain.length ≤ maxAncestors then chain
  else
    let kept := (chain.filter (keep.contains ·)).take maxAncestors
    let room := maxAncestors - kept.length
    let recent := (chain.filter (fun m => !kept.contains m)).take room
    (kept ++ recent).insertionSort (· ≥ ·)

/-- `n` names the version stamped `m` as one it was made from. -/
def Note.names (n : Note) (m : Int) : Bool := n.parent == m || n.ancestors.contains m

/-! ### Text -/

/-- What labels and duplicate checks trim. -/
def trimSet : List Char :=
  [' ', '\t', '\n', '\r', '\x0b', '\x0c', '\u00a0', '\u2028', '\u2029', '\u3000']

/-- `trim_note`, on characters. -/
def trimNote (text : List Char) : List Char :=
  ((text.dropWhile (trimSet.contains ·)).reverse.dropWhile (trimSet.contains ·)).reverse

/-- `str::lines`: the text cut at each `\n`, a `\r` before it dropped
too. `acc` holds the current line, reversed. -/
def linesFrom : List Char → List Char → List (List Char)
  | acc, [] => if acc.isEmpty then [] else [acc.reverse]
  | acc, c :: rest =>
    if c = '\n' then
      (match acc with
        | '\r' :: line => line.reverse
        | line => line.reverse) :: linesFrom [] rest
    else linesFrom (c :: acc) rest

/-- A note's title, or its first line, or "New Note". -/
def Note.label (n : Note) : String :=
  let title := trimNote n.title.toList
  let label :=
    if title.isEmpty then
      (((linesFrom [] n.body.toList).map
        (fun line => trimNote (line.dropWhile (['#', ' ', '-', '*'].contains ·)))).find?
          (fun line => !line.isEmpty)).getD "New Note".toList
    else title
  String.ofList (label.take 80)

def Note.sameContent (n other : Note) : Bool :=
  n.title == other.title && n.body == other.body && n.pinned == other.pinned
    && n.deleted == other.deleted

/-- The id of the conflicted copy of version `modified` of note `id`. -/
def copyId (id : String) (modified : Int) : String := id ++ "~" ++ toString modified

/-- The conflicted copy of the losing version `loser`. -/
def Note.copyOf (loser : Note) : Note :=
  { loser with
    id := copyId loser.id loser.modified
    title := loser.label ++ " " ++ copySuffix
    parent := loser.modified }

/-- A note nobody has written in or edited yet. -/
def Note.isBlankNew (n : Note) : Bool :=
  !n.deleted && n.ancestors.isEmpty && n.parent == 0
    && (trimNote n.title.toList).isEmpty && (trimNote n.body.toList).isEmpty

/-! ### Validation -/

def validId (id : String) : Bool :=
  id ≠ "" && id.length ≤ maxIdChars && !id.toList.any Lib.isControl

def validSnippet (s : Snippet) : Bool :=
  validId s.id && s.text.utf8ByteSize ≤ maxSnippetBytes
    && s.title.length ≤ maxSnippetTitleChars && (s.deleted || s.text ≠ "") && 0 < s.modified

def validNote (n : Note) : Bool :=
  validId n.id && n.ancestors.length ≤ maxAncestors && n.body.utf8ByteSize ≤ maxNoteBytes
    && n.title.length ≤ maxNoteTitleChars && 0 < n.modified

/-! ### JSON sizes -/

/-- The bytes one character takes inside a JSON string. -/
def jsonCharLength (c : Char) : Nat :=
  if c = '"' ∨ c = '\\' then 2
  else if c = '\n' ∨ c = '\r' ∨ c = '\t' ∨ c = '\x08' ∨ c = '\x0c' then 2
  else if c.toNat < 0x20 then 6
  else c.utf8Size

def jsonStringLength (s : String) : Nat := 2 + (s.toList.map jsonCharLength).sum

def jsonBoolLength (b : Bool) : Nat := if b then 4 else 5

def jsonIntLength (n : Int) : Nat := (toString n).length

/-- The bytes of an array or object whose parts take `parts` bytes each. -/
def jsonGroupLength (parts : List Nat) : Nat := 2 + parts.sum + (parts.length - 1)

/-- One `"key":value` of an object. -/
def jsonFieldLength (key : String) (value : Nat) : Nat := jsonStringLength key + 1 + value

def Snippet.jsonLength (s : Snippet) : Nat :=
  jsonGroupLength <|
    [jsonFieldLength "id" (jsonStringLength s.id),
      jsonFieldLength "text" (jsonStringLength s.text),
      jsonFieldLength "title" (jsonStringLength s.title),
      jsonFieldLength "modified" (jsonIntLength s.modified)]
    ++ (if s.deleted then [jsonFieldLength "deleted" (jsonBoolLength true)] else [])

def Note.jsonLength (n : Note) : Nat :=
  jsonGroupLength <|
    [jsonFieldLength "id" (jsonStringLength n.id),
      jsonFieldLength "title" (jsonStringLength n.title),
      jsonFieldLength "body" (jsonStringLength n.body),
      jsonFieldLength "pinned" (jsonBoolLength n.pinned),
      jsonFieldLength "created" (jsonIntLength n.created),
      jsonFieldLength "modified" (jsonIntLength n.modified),
      jsonFieldLength "parent" (jsonIntLength n.parent)]
    ++ (if n.ancestors.isEmpty then []
        else [jsonFieldLength "ancestors" (jsonGroupLength (n.ancestors.map jsonIntLength))])
    ++ (if n.deleted then [jsonFieldLength "deleted" (jsonBoolLength true)] else [])

/-- Whether a note can go in an `items` packet at all. -/
def Note.fitsOnePacket (n : Note) : Bool := n.jsonLength < maxPacketBytes - packetOverhead

end DeskLink.Notes
