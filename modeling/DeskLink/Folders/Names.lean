import DeskLink.Lib.Paths
import DeskLink.Transfer.Names

/-!
# `DeskLink.Folders.Names`: the names in a synced folder

The paths and names of `folders.rs`: which a Bucket takes (`name_ok`,
`bucket_path_ok`), which two are one on a phone that does not tell case
(`fold_name`), the name for a phone's copy after a conflict, and a new name
among others.

`char::to_lowercase` is the parameter `lower`, and the date of a conflict
name (`glib::DateTime`) the parameter `date`.
-/

set_option autoImplicit false

namespace DeskLink.Folders

open Lib

def maxNameBytes : Nat := 255
def maxBucketDepth : Nat := 2

/-! ### Paths -/

/-- `validate_relpath` of `file_protocol.rs`. -/
def validateRelpath (value : String) : Bool :=
  let names := segments '/' value.toList
  value ≠ "" && value.utf8ByteSize ≤ 1024 && names.length ≤ 32
    && names.all (fun name => Transfer.validateFilename (String.ofList name) = .ok ())

/-- A name another system can hold too. -/
def nameOk (segment : String) : Bool :=
  segment ≠ "" && segment.utf8ByteSize ≤ maxNameBytes && segment ≠ "." && segment ≠ ".."
    && !(segment.toList.getLast?.any (fun c => c == '.' || c == ' '))
    && !(segment.toList.any (fun c => isControl c || c == '/' || c == '\\' || c == ':'))

/-- A path the Bucket holds. -/
def bucketPathOk (path : String) (dir : Bool) : Bool :=
  let names := segments '/' path.toList
  validateRelpath path && names.length ≤ maxBucketDepth + (if dir then 0 else 1)
    && names.all (fun name => nameOk (String.ofList name))

/-- What `path[..at]` is, for each `/` of a path. -/
def foldersAbove (path : String) : List String := (above '/' path.toList).map String.ofList

/-- `path == loser`, or what is left of it begins with `/`. -/
def atOrBelow (loser path : String) : Bool :=
  path == loser || (loser.toList ++ ['/']).isPrefixOf path.toList

/-- `rsplit_once('/').unwrap_or(("", path))`. -/
def splitPath (path : String) : String × String :=
  let (parent, name) := splitParent '/' path.toList
  (String.ofList parent, String.ofList name)

/-! ### Names -/

variable (lower : Char → List Char)

/-- Character by character: one that lowers to several stays. -/
def foldChar (c : Char) : Char :=
  match lower c with
  | [single] => single
  | _ => c

def foldName (name : String) : String := String.ofList (name.toList.map (foldChar lower))

/-- `rsplit_once('.')`, where there is a stem and a short extension. -/
def splitName (name : List Char) : List Char × List Char :=
  match (rsplitOnce '.' name).filter
      (fun (stem, extension) => stem ≠ [] ∧ byteLen extension ≤ 16) with
  | some (stem, extension) => (stem, '.' :: extension)
  | none => (name, [])

/-- The directory and the folded name of a path: what names must differ in to
be different on a system that ignores case. -/
def caseKey (path : String) : String × String :=
  ((splitPath path).1, foldName lower (splitPath path).2)

/-- `<stem> (conflict from <phone> <YYYY-MM-DD>)<.ext>`, beside `path`. -/
def conflictName (date : Int → Option String) (path phone : String) (mtime : Int) : String :=
  let (dir, name) :=
    match rsplitOnce '/' path.toList with
    | some (dir, name) => (dir ++ ['/'], name)
    | none => ([], path.toList)
  let (stem, extension) := splitName name
  let day := (date (mtime / 1000)).getD "1970-01-01"
  let phone := (phone.toList.filter (fun c =>
    !(c == '/' || c == '\\' || c == '\x00' || c == ':') && !isControl c)).take 40
  let suffix := " (conflict from ".toList ++ phone ++ ' ' :: day.toList ++ ')' :: extension
  String.ofList (dir ++ cut (255 - byteLen suffix) stem ++ suffix)

/-- Nothing is `there` under `name`, and neither an entry of the directory as it
was read nor a picked name is `name`, or differs from it only by case. -/
def isFree (there : String → Bool) (entries taken : List String) (name : String) : Bool :=
  !there name && !taken.contains name
    && !(entries.map (foldName lower)).contains (foldName lower name)
    && !(taken.map (foldName lower)).contains (foldName lower name)

/-- `name (number)`, before the extension. -/
def numberedName (name : String) (number : Nat) : String :=
  let (stem, extension) := splitName name.toList
  String.ofList (stem ++ [' ', '('] ++ Nat.toDigits 10 number ++ [')'] ++ extension)

/-- What a name gets when all numbers are taken. -/
def randomName (random name : String) : String :=
  let (stem, extension) := splitName name.toList
  String.ofList (stem ++ ' ' :: random.toList ++ extension)

/-- A name in `dir` that neither it nor `taken` has. There are no entries where the
directory cannot be read. -/
def uniqueAmong (there : String → Bool) (entries taken : List String) (random name : String) :
    String :=
  if isFree lower there entries taken name then name
  else
    (((List.range' 2 9998).map (numberedName name)).find? (isFree lower there entries taken)).getD
      (randomName random name)

end DeskLink.Folders
