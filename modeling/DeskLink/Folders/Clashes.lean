import DeskLink.Folders.Manifest

/-!
# `DeskLink.Folders.Clashes`: names that differ only in case

`drop_case_clashes` and `left_out_of_remote` of `folders.rs`: in one
directory, the one of such names that sorts first is synced, and the others,
with everything below them, are not.
-/

set_option autoImplicit false

namespace DeskLink.Folders

variable {V : Type} (lower : Char → List Char)

/-- The names met, and the paths left out. -/
structure Clashes where
  first : List (String × String) := []
  losers : List String := []

/-- One path of `drop_case_clashes`. -/
def Clashes.visit (live : V → Bool) (c : Clashes) (item : String × V) : Clashes :=
  let (path, value) := item
  if !live value then c
  -- Below one that is already left out: no say.
  else if (foldersAbove path).any c.losers.contains then c
  else if c.first.contains (caseKey lower path) then { c with losers := c.losers ++ [path] }
  else { c with first := caseKey lower path :: c.first }

def caseLosers (items : KeyMap V) (live : V → Bool) : List String :=
  (items.toList.foldl (Clashes.visit lower live) {}).losers

/-- What is left of `items`, and the paths left out (not what is below
them). -/
def dropCaseClashes (items : KeyMap V) (live : V → Bool) : KeyMap V × List String :=
  let losers := caseLosers lower items live
  (items.filter (fun path value => !live value || !losers.any (fun loser => atOrBelow loser path)),
    losers)

/-- One remote path of `left_out_of_remote`. -/
def clashVisit (held : List (String × String)) (mine : Manifest) (clashing : List String)
    (item : String × Entry) : List String :=
  let (path, entry) := item
  let under := (foldersAbove path).any clashing.contains
  if !entry.deleted && !under && held.contains (caseKey lower path)
      && mine[path]?.all (fun ours => ours.deleted) then clashing ++ [path]
  else clashing

/-- The directories and folded names of what is live here. -/
def heldKeys (mine : Manifest) : List (String × String) :=
  (mine.toList.filter (fun item => !item.2.deleted)).map (fun item => caseKey lower item.1)

/-- The remote paths that clash with a different live one of `mine`. -/
def remoteClashing (remote mine : Manifest) : List String :=
  remote.toList.foldl (clashVisit lower (heldKeys lower mine) mine) []

/-- The other side's manifest, minus what clashes in case: within itself, and
with a different live path of `mine`; and the paths left out (not what is
below them). -/
def leftOutOfRemote (remote mine : Manifest) : Manifest × List String :=
  let (remote, leftOut) := dropCaseClashes lower remote (fun entry => !entry.deleted)
  let clashing := remoteClashing lower remote mine
  (remote.filter (fun path entry =>
      entry.deleted || !clashing.any (fun loser => atOrBelow loser path)),
    (leftOut ++ clashing).mergeSort (fun a b => (compare a b).isLE))

end DeskLink.Folders
