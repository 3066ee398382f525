import DeskLink.Lib.KeyMap
import DeskLink.Folders.Names

/-!
# `DeskLink.Folders.Manifest`: what each side knows of a folder

The model of `folders.rs`: a manifest has an entry for every path that was
ever seen, with a counter per side (`Vv`). `apply_scan` folds what a scan
found into it, and `plan` says what to do with the other side's.

A `u64` counter is a `UInt64`; the other numbers are those of one file or one
clock. The hash of a file's content is an argument, as in the source.
-/

set_option autoImplicit false

namespace DeskLink.Folders

def maxFiles : Nat := 20000
def tombstoneDays : Int := 30

inductive Side where
  | desk
  | phone
  deriving DecidableEq, Repr

/-- One counter per side: each bumps its own on a local change. -/
structure Vv where
  desk : UInt64 := 0
  phone : UInt64 := 0
  deriving DecidableEq, Repr

/-- `u64::saturating_add(1)`. -/
def saturatingSucc (count : UInt64) : UInt64 := if count = 0xffffffffffffffff then count else count + 1

namespace Vv

def dominates (self other : Vv) : Bool :=
  other.desk ≤ self.desk && other.phone ≤ self.phone && self ≠ other

def max (self other : Vv) : Vv :=
  { desk := Max.max self.desk other.desk, phone := Max.max self.phone other.phone }

def bumped (self : Vv) : Side → Vv
  | .desk => { self with desk := saturatingSucc self.desk }
  | .phone => { self with phone := saturatingSucc self.phone }

end Vv

/-- A file, a folder (`dir`) or a removal (`deleted`). -/
structure Entry where
  size : Nat := 0
  mtime : Int := 0
  sha256 : String := ""
  deleted : Bool := false
  dir : Bool := false
  vv : Vv
  deriving DecidableEq, Repr

abbrev Manifest := KeyMap Entry

/-- A local file's size and mtime (ms), from a scan. -/
structure Stat where
  size : Nat
  mtime : Int
  dir : Bool
  deriving DecidableEq, Repr

/-! ### A scan -/

/-- A folder that is there. -/
def freshFolder (vv : Vv) : Entry := { dir := true, vv := vv }

/-- A file that is there. -/
def freshFile (stat : Stat) (sha256 : String) (vv : Vv) : Entry :=
  { size := stat.size, mtime := stat.mtime, sha256 := sha256, vv := vv }

/-- One path a scan found. -/
def applyFound (side : Side) (hash : String → Option String) (manifest : Manifest)
    (found : String × Stat) : Manifest :=
  let (path, stat) := found
  if stat.dir then
    match manifest[path]? with
    | some entry =>
      if entry.dir && !entry.deleted then manifest
      else manifest.insert path (freshFolder (entry.vv.bumped side))
    | none =>
      if manifest.size < maxFiles then
        manifest.insert path (freshFolder (({} : Vv).bumped side))
      else manifest
  else
    match manifest[path]? with
    | some entry =>
      if !entry.deleted && !entry.dir && entry.size == stat.size && entry.mtime == stat.mtime then
        manifest
      else
        match hash path with
        | none => manifest
        | some sha256 =>
          if !entry.deleted && !entry.dir && entry.sha256 == sha256 then
            -- Touched, not changed.
            manifest.insert path { entry with size := stat.size, mtime := stat.mtime }
          else manifest.insert path (freshFile stat sha256 (entry.vv.bumped side))
    | none =>
      match hash path with
      | none => manifest
      | some sha256 =>
        if maxFiles ≤ manifest.size then manifest
        else manifest.insert path (freshFile stat sha256 (({} : Vv).bumped side))

/-- A path that vanished becomes a tombstone. -/
def vanished (side : Side) (found : KeyMap Stat) (now : Int) (path : String) (entry : Entry) :
    Entry :=
  if !entry.deleted && !found.contains path then
    { entry with deleted := true, size := 0, sha256 := "", mtime := now,
                 vv := entry.vv.bumped side }
  else entry

/-- Folds a scan into the manifest for `side`. -/
def applyScan (side : Side) (manifest : Manifest) (found : KeyMap Stat)
    (hash : String → Option String) (now : Int) : Manifest :=
  let manifest := found.toList.foldl (applyFound side hash) manifest
  let manifest := manifest.map (vanished side found now)
  let cutoff := now - tombstoneDays * 24 * 3600 * 1000
  manifest.filter (fun _ entry => !entry.deleted || cutoff < entry.mtime)

/-! ### A plan -/

/-- One step of a plan, for the side that made it. -/
inductive Step where
  /-- Record the other side's entry (a tombstone, or the same content). -/
  | take (path : String) (entry : Entry)
  /-- Remove the local file; record `entry` (a tombstone). -/
  | delete (path : String) (entry : Entry)
  /-- Fetch the other side's file at `path`. -/
  | download (path : String) (entry : Entry)
  /-- A local file that `delete` would remove has the content to fetch. -/
  | move (source target : String) (entry tombstone : Entry)
  /-- Another local file has the content to fetch. -/
  | copy (source target : String) (entry : Entry)
  /-- Ours wins a concurrent change. -/
  | bump (path : String) (vv : Vv)
  /-- The phone's own version moves aside under the conflict name. -/
  | rename (source target : String)
  /-- A conflict to list. -/
  | conflict (path copy : String)
  deriving DecidableEq, Repr

/-- What is planned for one path of the other side's manifest. -/
def planPath (date : Int → Option String) (localSide : Side) (phoneName : String)
    (mine : Manifest) (path : String) (theirs : Entry) : List Step :=
  match mine[path]? with
  | none => if theirs.deleted then [.take path theirs] else [.download path theirs]
  | some ours =>
    if ours.vv = theirs.vv then []
    else if theirs.vv.dominates ours.vv then
      let same := ours.sha256 == theirs.sha256 && ours.deleted == theirs.deleted
      if same || (ours.deleted && theirs.deleted) then [.take path theirs]
      else if theirs.deleted then [.delete path theirs]
      else [.download path theirs]
    else if ours.vv.dominates theirs.vv then []
    else
      let merged := ours.vv.max theirs.vv
      if (ours.deleted && theirs.deleted)
          || (!ours.deleted && !theirs.deleted && ours.sha256 == theirs.sha256) then
        [.take path { theirs with vv := merged }]
      else if ours.deleted then
        -- Their edit beats our deletion.
        [.download path { theirs with vv := merged }]
      else if theirs.deleted then [.bump path (merged.bumped localSide)]
      else
        let phoneMtime := match localSide with | .desk => theirs.mtime | .phone => ours.mtime
        let copy := conflictName date path phoneName phoneMtime
        match localSide with
        | .desk => [.conflict path copy]
        | .phone =>
          [.rename path copy, .download path { theirs with vv := merged.bumped .desk }]

/-- One step, of which a delete is noted for its file's content. -/
def noteDelete (mine : Manifest) (deletes : KeyMap (String × Entry)) :
    Step → KeyMap (String × Entry)
  | .delete path entry =>
    match mine[path]?.filter (fun ours => !ours.deleted && !ours.dir) with
    | some ours =>
      if deletes.contains ours.sha256 then deletes
      else deletes.insert ours.sha256 (path, entry)
    | none => deletes
  | _ => deletes

/-- The first deleted file of each content. -/
def deletesByHash (mine : Manifest) (steps : List Step) : KeyMap (String × Entry) :=
  steps.foldl (noteDelete mine) ∅

/-- The paths a plan changes. -/
def changingPaths (steps : List Step) : List String :=
  steps.filterMap (fun
    | .delete path _ => some path
    | .download path _ => some path
    | .rename path _ => some path
    | _ => none)

/-- One path, noted for its content when it is a file the plan leaves. -/
def noteKept (changing : List String) (kept : KeyMap String) (item : String × Entry) :
    KeyMap String :=
  let (path, entry) := item
  if !entry.deleted && !entry.dir && !changing.contains path then kept.insert entry.sha256 path
  else kept

/-- The last file of each content that the plan leaves. -/
def keptByHash (mine : Manifest) (steps : List Step) : KeyMap String :=
  mine.toList.foldl (noteKept (changingPaths steps)) ∅

/-- What is left of the deletes, what was moved, and the steps so far. -/
structure Renaming where
  deletes : KeyMap (String × Entry)
  moved : List String := []
  out : List Step := []

def renameStep (kept : KeyMap String) (r : Renaming) (step : Step) : Renaming :=
  match step with
  | .download path entry =>
    if entry.dir then { r with out := r.out ++ [.download path entry] }
    else
      match r.deletes[entry.sha256]? with
      | some (source, tombstone) =>
        { deletes := r.deletes.erase entry.sha256
          moved := source :: r.moved
          out := r.out ++ [.move source path entry tombstone] }
      | none =>
        match kept[entry.sha256]? with
        | some source => { r with out := r.out ++ [.copy source path entry] }
        | none => { r with out := r.out ++ [.download path entry] }
  | other => { r with out := r.out ++ [other] }

/-- A download whose content a deleted (or kept) local file already has
becomes a move (or a copy): no transfer. -/
def renamesByHash (mine : Manifest) (steps : List Step) : List Step :=
  let r := steps.foldl (renameStep (keptByHash mine steps))
    { deletes := deletesByHash mine steps }
  r.out.filter (fun
    | .delete path _ => !r.moved.contains path
    | _ => true)

/-- What `localSide` does with the other side's complete manifest. -/
def plan (date : Int → Option String) (localSide : Side) (mine remote : Manifest)
    (phoneName : String) : List Step :=
  renamesByHash mine
    (remote.toList.flatMap (fun (path, theirs) =>
      planPath date localSide phoneName mine path theirs))

end DeskLink.Folders
