import DeskLink.Lib.Names
import DeskLink.Lib.Trim

/-!
# `DeskLink.Transfer.Names`: the names of received files

`sanitize_filename` and `validate_filename` of `file_protocol.rs`, and the
choice of a destination name of `transfer_manager/store.rs`. What the
downloads directory already has an entry for is the argument `taken`.
-/

set_option autoImplicit false

namespace DeskLink.Transfer

open Lib

def isBidi (c : Char) : Bool :=
  [0x200e, 0x200f, 0x061c, 0x2028, 0x2029].contains c.toNat
    || (0x202a ≤ c.toNat && c.toNat ≤ 0x202e) || (0x2066 ≤ c.toNat && c.toNat ≤ 0x2069)

/-- A name as it is kept and shown. -/
def sanitizeFilename (raw : String) : String :=
  let name := raw.toList.filter (fun c => !isControl c && !isBidi c)
  let name := cut 255 name
  if name = [] ∨ name = ['.'] ∨ name = ['.', '.'] then "file" else String.ofList name

def unsafeFilename : String := "Unsafe DeskLink transfer filename"

def validateFilename (value : String) : Except String Unit :=
  if value = "" ∨ 255 < value.utf8ByteSize ∨ value = "." ∨ value = ".."
      ∨ value.toList.any (fun c => c == '/' || c == '\\' || c == '\x00') then
    .error unsafeFilename
  else .ok ()

/-- `checked_child`: a name without `/` that is not empty has one
component. -/
def checkedChild (name : String) : Except String Unit :=
  if name = "" ∨ name = "." ∨ name = ".."
      ∨ name.toList.any (fun c => c == '/' || c == '\\' || c == '\x00') then
    .error "Unsafe DeskLink transfer path"
  else .ok ()

/-- `Path::file_stem` and `Path::extension` of a name: a dot at its
beginning is not one before an extension. -/
def splitExtension (name : List Char) : Option (List Char × List Char) :=
  (rsplitOnce '.' name).filter (fun (stem, _) => stem ≠ [])

/-- What a name is numbered by: its stem, and what stands after the number.
A very long extension is just part of the name. -/
def numberedParts (filename : List Char) : List Char × List Char :=
  match (splitExtension filename).filter
      (fun (_, extension) => extension ≠ [] ∧ byteLen extension ≤ 32) with
  | some (stem, extension) => (stem, '.' :: extension)
  | none => (filename, [])

/-- `stem (number).extension`, in 255 bytes. -/
def numbered (filename : List Char) (number : Nat) : List Char :=
  let (stem, rest) := numberedParts filename
  let suffix := [' ', '('] ++ Nat.toDigits 10 number ++ [')'] ++ rest
  cut (255 - byteLen suffix) stem ++ suffix

/-- The first free name of `numbers`. -/
def firstFree (taken : String → Bool) (filename : List Char) : List Nat → Except String String
  | [] => .error "Could not allocate a collision-safe DeskLink download name"
  | number :: numbers =>
    let name := String.ofList (numbered filename number)
    match checkedChild name with
    | .error error => .error error
    | .ok () => if taken name then firstFree taken filename numbers else .ok name

def availableDestinationName (taken : String → Bool) (filename : String) : Except String String :=
  match checkedChild filename with
  | .error error => .error error
  | .ok () =>
    if taken filename then firstFree taken filename.toList (List.range' 2 9998) else .ok filename

end DeskLink.Transfer
