import DeskLink.Lib.KeyMap
import DeskLink.Lib.Names

/-!
# `DeskLink.Config.Migration`: moving the transfer state

`migrate_transfer_state` and `copy_verified` of `config.rs`, one step at a time. A step says
whether what it calls works, and `stop` ends the process anywhere. Between runs the files of
the new folder grow.

That two files hold the same bytes is compared as such, and not by their length and their
SHA-256. A file of the new folder has an `Origin`, which the code does not know.
-/

set_option autoImplicit false

namespace DeskLink.Migration

abbrev Contents := List UInt8

/-- `Path::file_stem`. -/
def fileStem (name : List Char) : List Char :=
  match Lib.rsplitOnce '.' name with
  | some (before, _) => if before = [] then name else before
  | none => name

/-- `with_extension("migrating")`, the name under which a file is copied. -/
def staged (name : String) : String := String.ofList (fileStem name.toList) ++ ".migrating"

inductive Origin where
  /-- It was there before any move. -/
  | there
  /-- A whole copy, or a file that was moved with the folder. -/
  | copied
  /-- A copy at work, or one that was cut off. -/
  | unfinished
deriving DecidableEq, Repr

structure File where
  contents : Contents
  origin : Origin
deriving DecidableEq, Repr

/-- Where a run is. `listed` are the names that the listing gave, `todo` those still to be
looked at. -/
inductive Phase where
  | idle
  | listing
  | walking (listed todo : List String) (allCopied : Bool)
  | copying (name : String) (listed todo : List String) (allCopied : Bool)
  | placing (name : String) (listed todo : List String) (allCopied : Bool)
  | removing
deriving DecidableEq, Repr

structure World where
  old : KeyMap Contents
  oldThere : Bool := true
  new : KeyMap File
  newThere : Bool
  phase : Phase := .idle

inductive MoveStep where
  /-- A run begins: the folder above the new one is made, the old folder renamed, the new one
  made. -/
  | start (parent moves makes : Bool)
  /-- The entries that the listing gives. One that fails gives fewer, or none. -/
  | list (names : List String)
  /-- The next entry: it is seen to be a file, its size and that of its target are read, and
  it and its copy are opened. If not, what is there under the copy's name goes. -/
  | next (isFile sees opens removes : Bool)
  /-- So many more bytes are copied. -/
  | write (more : Nat)
  /-- The copy fails, or is not verified. -/
  | fail (removes : Bool)
  | verify
  /-- The copy is renamed into place. -/
  | place (renames removes : Bool)
  /-- The entries are through. -/
  | finish
  /-- A file of the old folder is removed, and the folder when it is empty. -/
  | remove (name : String)
  | removed
  /-- The process stops, or the removal fails. -/
  | stop
  /-- Between runs, a file of the new folder grows. -/
  | grow (name : String) (more : Contents)

namespace World

/-- The target is there and at least as long. -/
def longEnough (w : World) (name : String) (source : Contents) : Bool :=
  w.new[name]?.any (fun file => source.length ≤ file.contents.length)

/-- `fs::remove_file` of the copy, which may fail. -/
def dropStaged (w : World) (name : String) (removes : Bool) : KeyMap File :=
  if removes then w.new.erase (staged name) else w.new

def step (w : World) : MoveStep → Option World
  | .start parent moves makes =>
    if w.phase = .idle then
      if w.oldThere && parent then
        if !w.newThere && moves then
          some { w with
            old := ∅, oldThere := false, newThere := true
            new := w.old.map (fun _ contents => { contents, origin := .copied }) }
        else if makes then some { w with newThere := true, phase := .listing }
        else some w
      else some w
    else none
  | .list names =>
    if w.phase = .listing ∧ names.all w.old.contains then
      some { w with phase := .walking names names true }
    else none
  | .next isFile sees opens removes =>
    match w.phase with
    | .walking listed (name :: todo) allCopied =>
      match w.old[name]? with
      | none => none
      | some source =>
        if !isFile then some { w with phase := .walking listed todo false }
        else if sees && w.longEnough name source then
          some { w with phase := .walking listed todo allCopied }
        else if opens then
          some { w with
            new := w.new.insert (staged name) { contents := [], origin := .unfinished }
            phase := .copying name listed todo allCopied }
        else
          some { w with
            new := w.dropStaged name removes, phase := .walking listed todo false }
    | _ => none
  | .write more =>
    match w.phase with
    | .copying name _ _ _ =>
      match w.old[name]?, w.new[staged name]? with
      | some source, some file =>
        let contents := source.take (file.contents.length + more)
        some { w with
          new := w.new.insert (staged name) { contents, origin := .unfinished } }
      | _, _ => none
    | _ => none
  | .fail removes =>
    match w.phase with
    | .copying name listed todo _ =>
      some { w with new := w.dropStaged name removes, phase := .walking listed todo false }
    | _ => none
  | .verify =>
    match w.phase with
    | .copying name listed todo allCopied =>
      if w.old[name]? = w.new[staged name]?.map File.contents then
        some { w with phase := .placing name listed todo allCopied }
      else none
    | _ => none
  | .place renames removes =>
    match w.phase with
    | .placing name listed todo allCopied =>
      if renames then
        match w.new[staged name]? with
        | some file =>
          let new := (w.new.erase (staged name)).insert name { file with origin := .copied }
          some { w with new, phase := .walking listed todo allCopied }
        | none => none
      else
        some { w with new := w.dropStaged name removes, phase := .walking listed todo false }
    | _ => none
  | .finish =>
    match w.phase with
    | .walking _ [] allCopied =>
      some { w with phase := if allCopied then .removing else .idle }
    | _ => none
  | .remove name =>
    if w.phase = .removing then some { w with old := w.old.erase name } else none
  | .removed =>
    if w.phase = .removing ∧ w.old.isEmpty then
      some { w with oldThere := false, phase := .idle }
    else none
  | .stop => some { w with phase := .idle }
  | .grow name more =>
    if w.phase = .idle then
      w.new[name]?.map (fun file =>
        { w with new := w.new.insert name { file with contents := file.contents ++ more } })
    else none

/-- The two folders before any run. -/
def before (old : KeyMap Contents) (new : Option (KeyMap Contents)) : World where
  old
  new := (new.getD ∅).map (fun _ contents => { contents, origin := .there })
  newThere := new.isSome

end World

end DeskLink.Migration
