import DeskLink.Lib.BigEndian
import DeskLink.Transfer.Protocol

/-!
# `DeskLink.Transfer.Wire`: frames as bytes

The frame codec of `webrtc/file_protocol.rs`, and the reader that takes
frames off a lane (`read_lane_frame` of `webrtc/transfer_manager.rs`), on
byte strings. A number of the header is what the code has, a `u32` or a
`u64`.

A `Wire.Frame` is a message that `parse_frame` can return: its payload is
as long as its header says, is not empty, and has a trailer exactly when it
ends its block. `Frame.toFrame` is the frame that the engine handles.
-/

set_option autoImplicit false

namespace DeskLink.Transfer.Wire

/-- The largest frame this build offers and accepts. -/
def frameBytesProven : Nat := 61440
def frameHeaderBytes : Nat := 40
def blockTrailerBytes : Nat := 32

/-- `DLF2`. -/
def magic : Bytes := [0x44, 0x4C, 0x46, 0x32]
def flagLastOfBlock : UInt8 := 1

/-- Payload bytes one frame of `maxFrame` total bytes carries. The trailer
space is reserved in every frame. -/
def payloadCapacity (maxFrame : Nat) : Nat := maxFrame - frameHeaderBytes - blockTrailerBytes

/-- The fixed part of a frame. -/
structure FrameHeader where
  lastOfBlock : Bool
  pass : UInt8
  transfer : Vector UInt8 16
  blockIndex : UInt32
  offset : UInt64
  length : UInt32
deriving DecidableEq

namespace FrameHeader

/-- The 40 header bytes. -/
def write (h : FrameHeader) : Bytes :=
  magic ++ [if h.lastOfBlock then flagLastOfBlock else 0] ++ [h.pass] ++ [0] ++ [0]
    ++ h.transfer.toList ++ Lib.bigEndian 4 h.blockIndex.toNat
    ++ Lib.bigEndian 8 h.offset.toNat ++ Lib.bigEndian 4 h.length.toNat

/-- Whether this frame fits a file of `totalSize` bytes. -/
def check (h : FrameHeader) (totalSize : Nat) : Except String Unit :=
  let stop := h.offset.toNat + h.length.toNat
  if 2 ^ 64 ≤ stop then .error "DeskLink file frame overflows"
  else if h.length = 0 ∨ totalSize ≤ h.offset.toNat
      ∨ h.blockIndex.toNat ≠ h.offset.toNat / blockBytes then
    .error "DeskLink file frame is out of range"
  else
    let blockStop := min ((h.blockIndex.toNat + 1) * blockBytes) totalSize
    if blockStop < stop then .error "DeskLink file frame crosses a block"
    else if h.lastOfBlock ≠ decide (stop = blockStop) then
      .error "DeskLink file frame misplaces its block end"
    else .ok ()

end FrameHeader

/-- A parsed frame. -/
structure Frame where
  header : FrameHeader
  payload : Bytes
  trailer : Option Hash
  length_eq : payload.length = header.length.toNat
  length_pos : 0 < payload.length
  trailer_eq : trailer.isSome = header.lastOfBlock

/-- The message: header, payload, and the hash of a block that ends. -/
def Frame.bytes (f : Frame) : Bytes :=
  f.header.write ++ (f.payload ++ (f.trailer.map (·.toList)).getD [])

/-- The `count` bytes of `message` from `place` on. -/
def slice (message : Bytes) (place count : Nat) : Bytes := (message.drop place).take count

/-- The header fields, as `parse_frame` reads them. -/
def headerOf (message : Bytes) : FrameHeader where
  lastOfBlock := message.getD 4 0 &&& flagLastOfBlock != 0
  pass := message.getD 5 0
  transfer := Vector.ofFn (fun i => message.getD (8 + i) 0)
  blockIndex := UInt32.ofNat (Lib.bigEndianValue (slice message 24 4))
  offset := UInt64.ofNat (Lib.bigEndianValue (slice message 28 8))
  length := UInt32.ofNat (Lib.bigEndianValue (slice message 36 4))

def malformed : String := "Malformed DeskLink file frame"

/-- The trailer a frame of this header has. -/
def trailerBytes (h : FrameHeader) : Nat := if h.lastOfBlock then blockTrailerBytes else 0

/-- Parses one binary data-channel message. -/
def parseFrame (message : Bytes) : Except String Frame :=
  if message.length < frameHeaderBytes + 1 ∨ message.take 4 ≠ magic then .error malformed
  else if message.getD 4 0 &&& ~~~flagLastOfBlock ≠ 0 ∨ message.getD 6 0 ≠ 0
      ∨ message.getD 7 0 ≠ 0 then .error malformed
  else
    let header := headerOf message
    if h : header.length.toNat ≠ 0
        ∧ frameHeaderBytes + header.length.toNat + trailerBytes header = message.length then
      .ok
        { header
          payload := slice message frameHeaderBytes header.length.toNat
          trailer :=
            if header.lastOfBlock then
              some (Vector.ofFn (fun i =>
                message.getD (frameHeaderBytes + header.length.toNat + i) 0))
            else none
          length_eq := by
            unfold slice
            rw [List.length_take, List.length_drop]
            omega
          length_pos := by
            unfold slice
            rw [List.length_take, List.length_drop]
            omega
          trailer_eq := by cases header.lastOfBlock <;> rfl }
    else .error malformed

/-- `read_exact` on a stream that ends early. -/
def endOfStream : String := "failed to fill whole buffer"

/-- One frame from a lane, and the stream after it: the header says how
long it is. -/
def readLaneFrame (stream : Bytes) : Except String (Bytes × Bytes) :=
  if stream.length < frameHeaderBytes then .error endOfStream
  else if stream.take 4 ≠ magic then .error "not a file frame"
  else
    let length := Lib.bigEndianValue (slice stream 36 4)
    let trailer := if stream.getD 4 0 &&& flagLastOfBlock ≠ 0 then blockTrailerBytes else 0
    let total := frameHeaderBytes + length + trailer
    if length = 0 ∨ frameBytesProven < total then .error "a file frame of the wrong size"
    else if stream.length < total then .error endOfStream
    else .ok (stream.take total, stream.drop total)

/-- `while let Ok(frame) = read_lane_frame(stream)`: the frames a lane
carries. A frame is not empty, so that `fuel` past the stream's length is
never used. -/
def laneFrames : Nat → Bytes → List Bytes
  | 0, _ => []
  | fuel + 1, stream =>
    match readLaneFrame stream with
    | .error _ => []
    | .ok (frame, rest) => frame :: laneFrames fuel rest

def readLaneFrames (stream : Bytes) : List Bytes := laneFrames (stream.length + 1) stream

/-! ### The engine's frames -/

/-- The header the engine handles. `idString` is the id text of 16 bytes. -/
def FrameHeader.toHeader (idString : Vector UInt8 16 → String) (h : FrameHeader) :
    Transfer.FrameHeader where
  lastOfBlock := h.lastOfBlock
  pass := h.pass
  transfer := idString h.transfer
  blockIndex := h.blockIndex.toNat
  offset := h.offset.toNat
  length := h.length.toNat

def Frame.toFrame (idString : Vector UInt8 16 → String) (f : Frame) : Transfer.Frame where
  header := f.header.toHeader idString
  payload := f.payload
  trailer := f.trailer
  length_eq := f.length_eq
  trailer_eq := f.trailer_eq

end DeskLink.Transfer.Wire
