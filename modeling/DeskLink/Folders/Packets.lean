import DeskLink.Folders.Scan
import DeskLink.Lib.IdMap
import DeskLink.Notes.Note

/-!
# `DeskLink.Folders.Packets`: a manifest on the wire

`manifest_packets`, `manifest_entries` and the assembly in `on_manifest` of
`folders.rs`. A packet's entries are the typed ones: the JSON of an entry reads
back as the entry. Its size in bytes is computed, as the source does.
-/

set_option autoImplicit false

namespace DeskLink.Folders

open Notes (jsonStringLength jsonIntLength jsonBoolLength jsonGroupLength jsonFieldLength)

def maxPacketBytes : Nat := 40 * 1024
def maxParts : Nat := 256

/-- One part of a manifest. -/
structure ManifestPacket where
  part : Int
  parts : Int
  entries : List (String × Entry)

/-! ### Sending -/

/-- The bytes of an entry's JSON, its path included. -/
def wireLength (item : String × Entry) : Nat :=
  let (path, entry) := item
  jsonGroupLength <|
    [jsonFieldLength "path" (jsonStringLength path),
      jsonFieldLength "size" (jsonIntLength entry.size),
      jsonFieldLength "mtime" (jsonIntLength entry.mtime),
      jsonFieldLength "sha256" (jsonStringLength entry.sha256),
      jsonFieldLength "vv" (jsonGroupLength
        [jsonFieldLength "desk" (jsonIntLength entry.vv.desk.toNat),
          jsonFieldLength "phone" (jsonIntLength entry.vv.phone.toNat)])]
    ++ (if entry.deleted then [jsonFieldLength "deleted" (jsonBoolLength true)] else [])
    ++ (if entry.dir then [jsonFieldLength "dir" (jsonBoolLength true)] else [])

/-- The bytes of a whole packet, sent at `now`. -/
def ManifestPacket.length (id : String) (now : Int) (packet : ManifestPacket) : Nat :=
  jsonGroupLength
    [jsonFieldLength "id" (jsonIntLength now),
      jsonFieldLength "type" (jsonStringLength "desklink.folders"),
      jsonFieldLength "body" (jsonGroupLength
        [jsonFieldLength "op" (jsonStringLength "manifest"),
          jsonFieldLength "id" (jsonStringLength id),
          jsonFieldLength "part" (jsonIntLength packet.part),
          jsonFieldLength "parts" (jsonIntLength packet.parts),
          jsonFieldLength "entries" (jsonGroupLength (packet.entries.map wireLength))])]

def validPairId (id : String) : Bool :=
  id ≠ "" && id.utf8ByteSize ≤ 64 && id.toList.all (fun c => c.isAlphanum || c == '-')

/-- Live entries first, then removals newest first. -/
def wireOrder (a b : String × Entry) : Bool :=
  (!a.2.deleted && b.2.deleted) || (a.2.deleted == b.2.deleted && b.2.mtime ≤ a.2.mtime)

def ordered (manifest : Manifest) : List (String × Entry) := manifest.toList.mergeSort wireOrder

/-- The last part so far is `current`, of `size` bytes; an entry past the
bound begins a new one. -/
def packParts (current : List (String × Entry)) (size : Nat) :
    List (String × Entry) → List (List (String × Entry))
  | [] => [current]
  | item :: rest =>
    let length := wireLength item + 1
    if maxPacketBytes - 512 < size + length then current :: packParts [item] length rest
    else packParts (current ++ [item]) (size + length) rest

/-- The parts that are sent. -/
def sentParts (manifest : Manifest) : List (List (String × Entry)) :=
  (packParts [] 0 ((ordered manifest).take maxFiles)).take maxParts

def manifestPackets (manifest : Manifest) : List ManifestPacket :=
  let parts := sentParts manifest
  parts.mapIdx (fun index entries => ⟨(index + 1 : Nat), (parts.length : Nat), entries⟩)

/-! ### Receiving -/

/-- `to_ascii_lowercase`. -/
def asciiLowercase (s : String) : String :=
  String.ofList (s.toList.map (fun c => if 'A' ≤ c ∧ c ≤ 'Z' then Char.ofNat (c.toNat + 32) else c))

def isHexDigit (c : Char) : Bool :=
  c.isDigit || ('a' ≤ c && c ≤ 'f') || ('A' ≤ c && c ≤ 'F')

/-- An entry that is safe to use. -/
def sane (pair : Pair) (path : String) (entry : Entry) : Bool :=
  validateRelpath path && (!pair.bucket || bucketPathOk path entry.dir) && !ignored pair path
    && (entry.deleted || entry.dir
      || (entry.sha256.utf8ByteSize == 64 && entry.sha256.toList.all isHexDigit
        && entry.size ≤ maxFileBytes))

/-- The entries of a part that are safe to use, minus what the pair
ignores. -/
def manifestEntries (pair : Pair) (packet : ManifestPacket) : List (String × Entry) :=
  (packet.entries.take maxFiles).filterMap (fun (path, entry) =>
    if sane pair path entry then some (path, { entry with sha256 := asciiLowercase entry.sha256 })
    else none)

/-- The other side's manifest, being assembled: the parts received. -/
abbrev Incoming := IdMap (List (String × Entry))

/-- One part, and the whole manifest when that was the last one missing. -/
def onManifest (pair : Pair) (incoming : Incoming) (packet : ManifestPacket) :
    Incoming × Option Manifest :=
  if ¬(1 ≤ packet.parts ∧ packet.parts ≤ maxParts) ∨ ¬(1 ≤ packet.part ∧ packet.part ≤ packet.parts)
    then (incoming, none)
  else
    let held := (incoming.toList.map (fun part => part.2.length)).sum
    let incoming := if packet.part = 1 then ∅ else incoming
    if maxFiles * 2 ≤ held then (∅, none)
    else
      let incoming := incoming.insert packet.part.toNat (manifestEntries pair packet)
      if (incoming.size : Int) ≠ packet.parts then (incoming, none)
      else
        (∅, some (Std.ExtTreeMap.ofList
          ((incoming.toList.flatMap (fun part => part.2)).take maxFiles) compare))

/-- Packets one after another, and the manifests that were complete. -/
def receive (pair : Pair) (incoming : Incoming) : List ManifestPacket → Incoming × List Manifest
  | [] => (incoming, [])
  | packet :: packets =>
    let (incoming, complete) := onManifest pair incoming packet
    let (incoming, rest) := receive pair incoming packets
    (incoming, complete.toList ++ rest)

end DeskLink.Folders
