import DeskLink.Lib.BigEndian
import DeskLink.Lib.Utf8
import DeskLink.Terminal.Bridge

/-!
# `DeskLink.Terminal.Wire`: terminal chunks as bytes

`TerminalChunk` of `webrtc/terminal_protocol.rs` with its codec, and
`split_chunk_events` of `webrtc/terminal_bridge.rs`. Here a terminal id is a
text and an offset a `u64`, whose addition wraps.
-/

set_option autoImplicit false

namespace DeskLink.Terminal.Wire

open Lib (bigEndian bigEndianValue utf8Bytes utf8Text)

def chunkHeaderBytes : Nat := 19

/-- `DLT1`. -/
def magic : List UInt8 := [0x44, 0x4C, 0x54, 0x31]

def malformed : String := "Malformed DeskLink WebRTC terminal chunk"

def wireValue : ChunkKind → UInt8
  | .output => 0
  | .input => 1
  | .snapshot => 2

def parseKind (value : UInt8) : Except String ChunkKind :=
  if value = 0 then .ok .output
  else if value = 1 then .ok .input
  else if value = 2 then .ok .snapshot
  else .error "Unknown DeskLink terminal chunk kind"

structure TerminalChunk where
  kind : ChunkKind
  terminalId : String
  /-- Byte offset of the first of `data` in the session's output. -/
  offset : UInt64
  data : List UInt8
deriving DecidableEq

/-- An ASCII letter or digit, `-` or `_`. -/
def isIdByte (byte : UInt8) : Bool :=
  (48 ≤ byte && byte ≤ 57) || (65 ≤ byte && byte ≤ 90) || (97 ≤ byte && byte ≤ 122) ||
    byte == 45 || byte == 95

def validateTerminalId (value : String) : Except String Unit :=
  if value = "" ∨ 128 < (utf8Bytes value).length ∨ ¬(utf8Bytes value).all isIdByte then
    .error "Invalid DeskLink terminal id"
  else .ok ()

def validateChunkData (data : List UInt8) : Except String Unit :=
  if maxTerminalChunkBytes < data.length then .error "DeskLink terminal chunk is too large"
  else .ok ()

namespace TerminalChunk

/-- The message of a chunk: the header, the id and the data. -/
def bytes (chunk : TerminalChunk) : List UInt8 :=
  let id := utf8Bytes chunk.terminalId
  magic ++ [wireValue chunk.kind] ++ bigEndian 2 id.length ++ bigEndian 8 chunk.offset.toNat
    ++ bigEndian 4 chunk.data.length ++ id ++ chunk.data

def encode (chunk : TerminalChunk) : Except String (List UInt8) := do
  validateTerminalId chunk.terminalId
  validateChunkData chunk.data
  if 2 ^ 16 ≤ (utf8Bytes chunk.terminalId).length then
    throw "DeskLink terminal id is too long"
  if 2 ^ 32 ≤ chunk.data.length then
    throw "DeskLink terminal chunk is too large"
  return chunk.bytes

/-- The last step of `decode`: what the fields say is checked. -/
def checked (chunk : TerminalChunk) : Except String TerminalChunk := do
  validateTerminalId chunk.terminalId
  validateChunkData chunk.data
  return chunk

/-- The `count` bytes of `encoded` from `place` on. -/
def field (encoded : List UInt8) (place count : Nat) : List UInt8 := (encoded.drop place).take count

def decode (encoded : List UInt8) : Except String TerminalChunk :=
  if encoded.length < chunkHeaderBytes ∨ encoded.take 4 ≠ magic then .error malformed
  else
    match parseKind (encoded.getD 4 0) with
    | .error error => .error error
    | .ok kind =>
      let idLength := bigEndianValue (field encoded 5 2)
      let dataLength := bigEndianValue (field encoded 15 4)
      -- The declared lengths are compared before anything is sliced.
      if chunkHeaderBytes + idLength + dataLength ≠ encoded.length then .error malformed
      else
        match utf8Text (field encoded chunkHeaderBytes idLength) with
        | none => .error "Invalid DeskLink terminal id"
        | some terminalId =>
          checked {
            kind
            terminalId
            offset := UInt64.ofNat (bigEndianValue (field encoded 7 8))
            data := encoded.drop (chunkHeaderBytes + idLength) }

end TerminalChunk

/-- Wire-legal frames of `data`, the first at `offset`: the loop over
`chunks`. A frame is not empty, so the length of the data is fuel enough. -/
def splitPieces (kind : ChunkKind) (id : String) : Nat → UInt64 → List UInt8 → List TerminalChunk
  | 0, _, _ => []
  | fuel + 1, offset, data =>
    if data = [] then []
    else
      let piece := data.take maxTerminalChunkBytes
      { kind, terminalId := id, offset, data := piece }
        :: splitPieces kind id fuel (offset + UInt64.ofNat piece.length)
          (data.drop maxTerminalChunkBytes)

/-- Splits an oversized payload into wire-legal frames. -/
def splitChunkEvents (chunk : TerminalChunk) : List TerminalChunk :=
  if chunk.data.length ≤ maxTerminalChunkBytes then [chunk]
  else splitPieces chunk.kind chunk.terminalId chunk.data.length chunk.offset chunk.data

end DeskLink.Terminal.Wire
