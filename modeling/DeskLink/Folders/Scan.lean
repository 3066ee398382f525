import DeskLink.Folders.Clashes

/-!
# `DeskLink.Folders.Scan`: a look at the disk, folded into the manifest

`scan`, `hold_unstable`, `keep_existing` and `rescan` of `folders.rs`. What
stands on a disk is a `Disk`: what is at each path under the root, whether it
can be looked at, and what a folder's listing names, in its order.

`scan`'s stack is a recursion over the levels: of the folders of one, the last
is listed first. The directories to watch and the lines about what is not
synced are left out, as is the removal of stale temporary files.
-/

set_option autoImplicit false

namespace DeskLink.Folders

open Lib

def maxFileBytes : Nat := 1073741824
def maxBucketItems : Nat := 10000
def maxDepth : Nat := 32

/-- What is at a path: a file, a folder, or a link or special file. -/
inductive Node where
  | file (size : Nat) (mtime : Int)
  | folder
  | other
  deriving DecidableEq, Repr

/-- What `symlink_metadata` says. -/
inductive Look where
  | found (node : Node)
  | notFound
  | denied
  deriving DecidableEq, Repr

/-- What is under a root. What is in a folder has it above, and a listing
names different things that are there. -/
structure Disk where
  there : String → Option Node
  looked : String → Bool
  listing : String → Option (List String)
  isRoot : Bool
  above_folder : ∀ path, there path ≠ none → ∀ f ∈ foldersAbove path, there f = some .folder
  listed_names : ∀ dir names, listing dir = some names → ∀ name ∈ names, '/' ∉ name.toList

/-- `symlink_metadata(root.join(path))`. -/
def Disk.look (disk : Disk) (path : String) : Look :=
  if disk.looked path then
    match disk.there path with
    | some node => .found node
    | none => .notFound
  else .denied

/-- What a scan reads of a pair. -/
structure Pair where
  bucket : Bool
  includeHidden : Bool
  ignore : List String

/-- `ignored` (P5), for one path relative to the root. -/
def ignored (pair : Pair) (path : String) : Bool :=
  (segments '/' path.toList).any (fun segment =>
    segment == ".git".toList || segment == "node_modules".toList
      || ".desklink".toList.isPrefixOf segment
      || ".tmp".toList.isSuffixOf segment || ".part".toList.isSuffixOf segment
      || ['~'].isSuffixOf segment
      || (!pair.includeHidden && ['.'].isPrefixOf segment)
      || pair.ignore.any (fun pattern =>
        match pattern.toList with
        | '*' :: tail => tail ≠ [] && tail.isSuffixOf segment
        | whole => segment == whole))

/-! ### The scan -/

/-- The path of a name in a folder. -/
def joined (dir name : String) : String :=
  if dir = "" then name else String.ofList (dir.toList ++ '/' :: name.toList)

/-- What one entry of a folder is for a scan: a file or folder to record, and
whether to look into it. -/
structure Sight where
  stat : Option Stat
  enter : Bool

/-- One entry of a folder that is `depth` deep. -/
def sight (pair : Pair) (disk : Disk) (dir : String) (depth : Nat) (name : String) : Sight :=
  let path := joined dir name
  if ".desklink-".toList.isPrefixOf name.toList && ".tmp".toList.isSuffixOf name.toList then
    ⟨none, false⟩
  else if ignored pair path || !validateRelpath path then ⟨none, false⟩
  else
    match disk.look path with
    | .found node =>
      if pair.bucket && !nameOk name then ⟨none, false⟩
      else
        match node with
        | .folder =>
          if !pair.bucket then ⟨none, depth + 1 < maxDepth⟩
          else if maxBucketDepth ≤ depth then ⟨none, false⟩
          else ⟨some ⟨0, 0, true⟩, true⟩
        | .other => ⟨none, false⟩
        | .file size mtime =>
          if maxFileBytes < size then ⟨none, false⟩ else ⟨some ⟨size, mtime, false⟩, false⟩
    | _ => ⟨none, false⟩

def scanCap (pair : Pair) : Nat := if pair.bucket then maxBucketItems else maxFiles

/-- What was found, and the folders to look into, the last one first. -/
structure Scanning where
  found : KeyMap Stat
  stack : List String := []

/-- One entry: past the cap it is not recorded, and a Bucket's folder not
entered. -/
def scanEntry (pair : Pair) (disk : Disk) (dir : String) (depth : Nat) (s : Scanning)
    (name : String) : Scanning :=
  let path := joined dir name
  let seen := sight pair disk dir depth name
  match seen.stat with
  | some stat =>
    if scanCap pair ≤ s.found.size then s
    else
      { found := s.found.insert path stat
        stack := if seen.enter then path :: s.stack else s.stack }
  | none => if seen.enter then { s with stack := path :: s.stack } else s

/-- A folder and, after it, the folders in it. -/
def scanFolder (pair : Pair) (disk : Disk) : Nat → String → Nat → KeyMap Stat → KeyMap Stat
  | 0, _, _, found => found
  | levels + 1, dir, depth, found =>
    match disk.listing dir with
    | none => found
    | some names =>
      let s := names.foldl (scanEntry pair disk dir depth) { found := found }
      s.stack.foldl (fun found folder => scanFolder pair disk levels folder (depth + 1) found)
        s.found

variable (lower : Char → List Char)

/-- What a scan finds, or nothing when the root is not there. -/
def scan (pair : Pair) (disk : Disk) : Option (KeyMap Stat) :=
  if !disk.isRoot then none
  else
    let found := scanFolder pair disk maxDepth "" 0 ∅
    some (if pair.bucket then (dropCaseClashes lower found (fun _ => true)).1 else found)

/-! ### What the scan did not see -/

/-- A file that may still be being written: a new one is left out for now, a
known one is held at what the manifest says. -/
def holdUnstable (found : KeyMap Stat) (manifest : Manifest) (now window : Int) : KeyMap Stat :=
  found.filterMap (fun path stat =>
    if !stat.dir && 0 ≤ now - stat.mtime && now - stat.mtime < window
        && manifest[path]?.all (fun entry => entry.deleted || entry.mtime ≠ stat.mtime) then
      (manifest[path]?.filter (fun entry => !entry.deleted && !entry.dir)).map
        (fun entry => ⟨entry.size, entry.mtime, false⟩)
    else some stat)

/-- `read_path`: every folder on the way that can be looked at is one, and
what is there is a file. -/
def readPath (disk : Disk) (path : String) : Bool :=
  validateRelpath path
    && (foldersAbove path).all (fun f =>
      match disk.look f with
      | .found node => node = .folder
      | _ => true)
    && match disk.look path with
      | .found (.file _ _) => true
      | .found _ => false
      | _ => true

/-- `inside_unreadable_folder`, over the folders a path is in, the nearest
first. -/
def insideUnreadable (disk : Disk) : List String → Bool
  | [] => false
  | f :: outer =>
    match disk.look f with
    | .found .folder => disk.listing f = none
    | .found _ => false
    | .notFound => insideUnreadable disk outer
    | .denied => true

/-- Whether a path that was not found is kept. -/
def stillThere (disk : Disk) (path : String) : Bool :=
  (readPath disk path && match disk.look path with | .found _ => true | _ => false)
    || insideUnreadable disk (foldersAbove path).reverse

/-- One path of `keep_existing`. -/
def keepPath (disk : Disk) (found : KeyMap Stat) (item : String × Entry) : KeyMap Stat :=
  let (path, entry) := item
  if entry.deleted || found.contains path then found
  else if stillThere disk path then found.insert path ⟨entry.size, entry.mtime, entry.dir⟩
  else found

def keepExisting (disk : Disk) (found : KeyMap Stat) (manifest : Manifest) : KeyMap Stat :=
  manifest.toList.foldl (keepPath disk) found

/-! ### The rescan -/

/-- The rescan of a pair. `allowEmpty` is what the person confirmed, and
`onPurpose` whether the root is still the directory it was. -/
def rescan (pair : Pair) (disk : Disk) (hash : String → Option String)
    (allowEmpty onPurpose : Bool) (now window : Int) (manifest : Manifest) : Manifest :=
  match scan lower pair disk with
  | none => manifest
  | some found =>
    if found.isEmpty && manifest.toList.any (fun item => !item.2.deleted) && !allowEmpty
        && !onPurpose then
      -- An unmounted drive looks exactly like this.
      manifest
    else
      let found := holdUnstable found manifest now window
      let found := keepExisting disk found manifest
      applyScan .desk manifest found hash now

end DeskLink.Folders
