import DeskLink.Transfer.Wire

/-!
# `DeskLink.Proofs.Transfer.Wire`: the two readers of a frame

`headerOf_write` and `write_headerOf` are the two ways between a header and
its 40 bytes, and `parseFrame_bytes` and `bytes_of_parseFrame` the two
between a frame and its message. `parseFrame_ok_iff` says which messages are
parsed.

`frame_codec` is about both readers: the lane's takes off what the header
says, and does not look at the bits that `parseFrame` reserves.
-/

set_option autoImplicit false

namespace DeskLink.Transfer.Wire

variable {count place : Nat} {m a b : Bytes}

/-! ### Slices -/

theorem slice_append {k : Nat} (h : a.length = k) (i count : Nat) :
    slice (a ++ b) (k + i) count = slice b i count := by
  subst h
  have hnone : a.drop (a.length + i) = [] := List.drop_eq_nil_of_le (by omega)
  simp [slice, List.drop_append, hnone]

theorem slice_head (h : a.length = count) : slice (a ++ b) 0 count = a := by
  subst h
  simp [slice]

theorem length_slice (h : place + count ≤ m.length) : (slice m place count).length = count := by
  unfold slice
  rw [List.length_take, List.length_drop]
  omega

theorem slice_one (h : place < m.length) :
    slice m place 1 = [m.getD place 0] := Lib.take_one m place 0 h

theorem slice_slice (m : Bytes) (place i j : Nat) :
    slice m place (i + j) = slice m place i ++ slice m (place + i) j := by
  unfold slice
  rw [List.take_add, List.drop_drop]

/-- A slice is read entry by entry. -/
theorem slice_eq_ofFn (h : place + count ≤ m.length) :
    (Vector.ofFn (fun i : Fin count => m.getD (place + i) 0)).toList = slice m place count := by
  apply List.ext_getElem
  · simp [length_slice h]
  · intro i hi _
    have hlt : i < count := by simpa using hi
    have hin : place + i < m.length := by omega
    simp [slice, hin]

theorem ofFn_of_slice {v : Vector UInt8 count} (h : slice m place count = v.toList)
    (hle : place + count ≤ m.length) :
    Vector.ofFn (fun i : Fin count => m.getD (place + i) 0) = v := by
  apply Vector.toList_inj.mp
  rw [slice_eq_ofFn hle, h]

theorem four_bytes : 256 ^ 4 = 2 ^ 32 := by norm_num

theorem eight_bytes : 256 ^ 8 = 2 ^ 64 := by norm_num

/-! ### Headers -/

namespace FrameHeader

@[simp] theorem length_write (h : FrameHeader) : h.write.length = frameHeaderBytes := by
  simp [write, magic, frameHeaderBytes]

/-- The header, after its first eight bytes. -/
theorem write_append (h : FrameHeader) (rest : Bytes) :
    h.write ++ rest = [0x44, 0x4C, 0x46, 0x32, if h.lastOfBlock then flagLastOfBlock else 0,
      h.pass, 0, 0] ++ (h.transfer.toList ++ (Lib.bigEndian 4 h.blockIndex.toNat
        ++ (Lib.bigEndian 8 h.offset.toNat ++ (Lib.bigEndian 4 h.length.toNat ++ rest)))) := by
  simp [write, magic]

theorem slice_transfer (h : FrameHeader) (rest : Bytes) :
    slice (h.write ++ rest) 8 16 = h.transfer.toList := by
  rw [write_append]
  show slice _ (8 + 0) 16 = _
  rw [slice_append (k := 8) rfl, slice_head (by simp)]

theorem slice_blockIndex (h : FrameHeader) (rest : Bytes) :
    slice (h.write ++ rest) 24 4 = Lib.bigEndian 4 h.blockIndex.toNat := by
  rw [write_append]
  show slice _ (8 + (16 + 0)) 4 = _
  rw [slice_append (k := 8) rfl, slice_append (k := 16) (by simp), slice_head (by simp)]

theorem slice_offset (h : FrameHeader) (rest : Bytes) :
    slice (h.write ++ rest) 28 8 = Lib.bigEndian 8 h.offset.toNat := by
  rw [write_append]
  show slice _ (8 + (16 + (4 + 0))) 8 = _
  rw [slice_append (k := 8) rfl, slice_append (k := 16) (by simp), slice_append (k := 4) (by simp),
    slice_head (by simp)]

theorem slice_length (h : FrameHeader) (rest : Bytes) :
    slice (h.write ++ rest) 36 4 = Lib.bigEndian 4 h.length.toNat := by
  rw [write_append]
  show slice _ (8 + (16 + (4 + (8 + 0)))) 4 = _
  rw [slice_append (k := 8) rfl, slice_append (k := 16) (by simp), slice_append (k := 4) (by simp),
    slice_append (k := 8) (by simp), slice_head (by simp)]

theorem value_length (h : FrameHeader) (rest : Bytes) :
    Lib.bigEndianValue (slice (h.write ++ rest) 36 4) = h.length.toNat := by
  rw [slice_length, Lib.bigEndianValue_bigEndian, four_bytes]
  exact Nat.mod_eq_of_lt h.length.toNat_lt

theorem getD_flags (h : FrameHeader) (rest : Bytes) :
    (h.write ++ rest).getD 4 0 = if h.lastOfBlock then flagLastOfBlock else 0 := by
  rw [write_append]
  rfl

/-- The bytes of a header say it. -/
theorem headerOf_write (h : FrameHeader) (rest : Bytes) : headerOf (h.write ++ rest) = h := by
  have hlong : 40 ≤ (h.write ++ rest).length := by simp [frameHeaderBytes]
  have hflag : (((h.write ++ rest).getD 4 0 &&& flagLastOfBlock) != 0) = h.lastOfBlock := by
    rw [getD_flags]
    cases h.lastOfBlock <;> rfl
  have hpass : (h.write ++ rest).getD 5 0 = h.pass := by
    rw [write_append]
    rfl
  have htransfer : Vector.ofFn (fun i : Fin 16 => (h.write ++ rest).getD (8 + i) 0) = h.transfer :=
    ofFn_of_slice (slice_transfer h rest) (by omega)
  have hblock : UInt32.ofNat (Lib.bigEndianValue (slice (h.write ++ rest) 24 4)) = h.blockIndex := by
    rw [slice_blockIndex, Lib.bigEndianValue_bigEndian, four_bytes,
      Nat.mod_eq_of_lt h.blockIndex.toNat_lt]
    exact UInt32.ofNat_toNat
  have hoffset : UInt64.ofNat (Lib.bigEndianValue (slice (h.write ++ rest) 28 8)) = h.offset := by
    rw [slice_offset, Lib.bigEndianValue_bigEndian, eight_bytes,
      Nat.mod_eq_of_lt h.offset.toNat_lt]
    exact UInt64.ofNat_toNat
  have hlength : UInt32.ofNat (Lib.bigEndianValue (slice (h.write ++ rest) 36 4)) = h.length := by
    rw [value_length]
    exact UInt32.ofNat_toNat
  unfold headerOf
  rw [hflag, hpass, htransfer, hblock, hoffset, hlength]

end FrameHeader

variable {f : Frame} {l frame rest stream : Bytes}

/-- A flag byte without other bits is the flag. -/
theorem flags_eq {b : UInt8} (h : b &&& ~~~flagLastOfBlock = 0) :
    (if (b &&& flagLastOfBlock != 0) = true then flagLastOfBlock else 0) = b := by
  have hall : ∀ n : Fin 256, UInt8.ofFin n &&& ~~~flagLastOfBlock = 0 →
      (if (UInt8.ofFin n &&& flagLastOfBlock != 0) = true then flagLastOfBlock else 0)
        = UInt8.ofFin n := by decide +kernel
  exact hall b.toFin h

theorem bigEndian_uint32 (h : l.length = 4) :
    Lib.bigEndian 4 (UInt32.ofNat (Lib.bigEndianValue l)).toNat = l := by
  have hlt := Lib.bigEndianValue_lt l
  rw [h, four_bytes] at hlt
  rw [UInt32.toNat_ofNat', Nat.mod_eq_of_lt hlt, ← h]
  exact Lib.bigEndian_bigEndianValue l

theorem bigEndian_uint64 (h : l.length = 8) :
    Lib.bigEndian 8 (UInt64.ofNat (Lib.bigEndianValue l)).toNat = l := by
  have hlt := Lib.bigEndianValue_lt l
  rw [h, eight_bytes] at hlt
  rw [UInt64.toNat_ofNat', Nat.mod_eq_of_lt hlt, ← h]
  exact Lib.bigEndian_bigEndianValue l

/-- Bytes that pass the checks of `parseFrame` are those of their header. -/
theorem write_headerOf (hlong : frameHeaderBytes ≤ m.length) (hmagic : m.take 4 = magic)
    (hflags : m.getD 4 0 &&& ~~~flagLastOfBlock = 0) (hsix : m.getD 6 0 = 0)
    (hseven : m.getD 7 0 = 0) : (headerOf m).write = m.take frameHeaderBytes := by
  have h40 : 40 ≤ m.length := hlong
  have hcut : m.take frameHeaderBytes = m.take 4 ++ [m.getD 4 0] ++ [m.getD 5 0] ++ [m.getD 6 0]
      ++ [m.getD 7 0] ++ slice m 8 16 ++ slice m 24 4 ++ slice m 28 8 ++ slice m 36 4 := by
    rw [← slice_one (by omega), ← slice_one (by omega), ← slice_one (by omega),
      ← slice_one (by omega)]
    show slice m 0 (4 + 1 + 1 + 1 + 1 + 16 + 4 + 8 + 4) = slice m 0 4 ++ _ ++ _ ++ _ ++ _ ++ _
      ++ _ ++ _ ++ _
    simp only [slice_slice]
  unfold FrameHeader.write headerOf
  rw [hcut, hmagic, hsix, hseven, flags_eq hflags, slice_eq_ofFn (by omega),
    bigEndian_uint32 (length_slice (by omega)), bigEndian_uint64 (length_slice (by omega)),
    bigEndian_uint32 (length_slice (by omega))]

/-! ### Messages -/

theorem Frame.ext {g : Frame} (hheader : f.header = g.header) (hpayload : f.payload = g.payload)
    (htrailer : f.trailer = g.trailer) : f = g := by
  cases f
  cases g
  simp only at hheader hpayload htrailer
  subst hheader hpayload htrailer
  rfl

theorem Frame.length_trailer (f : Frame) :
    ((f.trailer.map (·.toList)).getD []).length = trailerBytes f.header := by
  have htrailer := f.trailer_eq
  unfold trailerBytes
  cases hget : f.trailer with
  | none =>
    rw [hget] at htrailer
    simp [← htrailer]
  | some hash =>
    rw [hget] at htrailer
    simp [← htrailer, blockTrailerBytes]

theorem Frame.length_bytes (f : Frame) :
    f.bytes.length = frameHeaderBytes + f.header.length.toNat + trailerBytes f.header := by
  rw [Frame.bytes, List.length_append, List.length_append, FrameHeader.length_write,
    Frame.length_trailer, f.length_eq]
  omega

/-- What a message must be to be parsed. -/
structure Parses (m : Bytes) : Prop where
  long : frameHeaderBytes + 1 ≤ m.length
  magic : m.take 4 = magic
  flags : m.getD 4 0 &&& ~~~flagLastOfBlock = 0
  reserved : m.getD 6 0 = 0 ∧ m.getD 7 0 = 0
  length : (headerOf m).length.toNat ≠ 0
    ∧ frameHeaderBytes + (headerOf m).length.toNat + trailerBytes (headerOf m) = m.length

theorem parseFrame_spec (h : Parses m) : ∃ f, parseFrame m = .ok f ∧ f.header = headerOf m
      ∧ f.payload = slice m frameHeaderBytes (headerOf m).length.toNat
      ∧ (f.trailer.map (·.toList)).getD []
        = slice m (frameHeaderBytes + (headerOf m).length.toNat) (trailerBytes (headerOf m)) := by
  have hshort : ¬(m.length < frameHeaderBytes + 1 ∨ m.take 4 ≠ magic) := by
    rintro (hlt | hne)
    · exact absurd h.long (by omega)
    · exact hne h.magic
  have hbits : ¬(m.getD 4 0 &&& ~~~flagLastOfBlock ≠ 0 ∨ m.getD 6 0 ≠ 0 ∨ m.getD 7 0 ≠ 0) := by
    rintro (hne | hne | hne)
    · exact hne h.flags
    · exact hne h.reserved.1
    · exact hne h.reserved.2
  unfold parseFrame
  rw [if_neg hshort, if_neg hbits]
  simp only
  rw [dif_pos h.length]
  refine ⟨_, rfl, rfl, rfl, ?_⟩
  have hlength := h.length.2
  show ((if (headerOf m).lastOfBlock = true then some _ else none).map _).getD [] = _
  unfold trailerBytes at hlength ⊢
  by_cases hlast : (headerOf m).lastOfBlock = true
  · rw [if_pos hlast] at hlength ⊢
    rw [if_pos hlast]
    exact slice_eq_ofFn (by
      unfold blockTrailerBytes at hlength
      omega)
  · rw [if_neg hlast, if_neg hlast]
    simp [slice]

theorem parses_of_parseFrame (h : parseFrame m = .ok f) : Parses m := by
  unfold parseFrame at h
  split at h
  · cases h
  · rename_i hshort
    split at h
    · cases h
    · rename_i hbits
      simp only at h
      split at h
      · rename_i hlength
        simp only [not_or, not_lt, ne_eq, not_not] at hshort hbits
        exact ⟨hshort.1, hshort.2, hbits.1, hbits.2, hlength⟩
      · cases h

/-- Which messages are parsed. -/
theorem parseFrame_ok_iff (m : Bytes) : (∃ f, parseFrame m = .ok f) ↔ Parses m :=
  ⟨fun ⟨_, h⟩ => parses_of_parseFrame h, fun h => ⟨_, (parseFrame_spec h).choose_spec.1⟩⟩

/-- A parsed message is that of its frame. -/
theorem bytes_of_parseFrame (h : parseFrame m = .ok f) : f.bytes = m := by
  have hparses := parses_of_parseFrame h
  obtain ⟨f', hf', hheader, hpayload, htrailer⟩ := parseFrame_spec hparses
  have hsame : f = f' := Except.ok.inj (h.symm.trans hf')
  subst hsame
  have hlong := hparses.long
  have hwrite := write_headerOf (by omega) hparses.magic hparses.flags hparses.reserved.1
    hparses.reserved.2
  calc f.bytes
      = m.take frameHeaderBytes ++ (slice m frameHeaderBytes (headerOf m).length.toNat
          ++ slice m (frameHeaderBytes + (headerOf m).length.toNat)
            (trailerBytes (headerOf m))) := by
        rw [Frame.bytes, hheader, hwrite, hpayload, htrailer]
    _ = slice m 0 (frameHeaderBytes + (headerOf m).length.toNat + trailerBytes (headerOf m)) := by
        rw [slice_slice, slice_slice, List.append_assoc, Nat.zero_add, Nat.zero_add]
        rfl
    _ = m := by
        rw [hparses.length.2]
        simp [slice]

/-- The message of a frame is parsed, to that frame. -/
theorem parseFrame_bytes (f : Frame) : parseFrame f.bytes = .ok f := by
  have hheader : headerOf f.bytes = f.header := FrameHeader.headerOf_write f.header _
  have hpos := f.length_pos
  have hlength := f.length_bytes
  have hpayload := f.length_eq
  have hparses : Parses f.bytes := by
    constructor
    · omega
    · rw [Frame.bytes, FrameHeader.write_append]
      rfl
    · rw [Frame.bytes, FrameHeader.getD_flags]
      cases f.header.lastOfBlock <;> rfl
    · rw [Frame.bytes, FrameHeader.write_append]
      exact ⟨rfl, rfl⟩
    · rw [hheader]
      exact ⟨by omega, hlength.symm⟩
  obtain ⟨f', hf', hheader', hpayload', htrailer'⟩ := parseFrame_spec hparses
  rw [hf']
  congr 1
  -- Both frames have these bytes, and so the same parts.
  have hbytes : f'.bytes = f.bytes := bytes_of_parseFrame hf'
  have hsame : f'.header = f.header := hheader'.trans hheader
  unfold Frame.bytes at hbytes
  rw [hsame] at hbytes
  have hrest := List.append_cancel_left hbytes
  obtain ⟨hpay, htrail⟩ := List.append_inj hrest (by rw [f'.length_eq, f.length_eq, hsame])
  refine Frame.ext hsame hpay ?_
  have hsome : f'.trailer.isSome = f.trailer.isSome := by
    rw [f'.trailer_eq, f.trailer_eq, hsame]
  cases hnew : f'.trailer with
  | none =>
    rw [hnew] at hsome
    exact (Option.isNone_iff_eq_none.mp (by simpa using hsome.symm)).symm
  | some hash =>
    rw [hnew] at hsome htrail
    obtain ⟨mine, hmine⟩ := Option.isSome_iff_exists.mp hsome.symm
    rw [hmine] at htrail ⊢
    exact congrArg some (Vector.toList_inj.mp htrail)

/-! ### The lane -/

/-- The length the lane reader takes from a header is the header's. -/
theorem headerOf_length (m : Bytes) (h : frameHeaderBytes ≤ m.length) :
    (headerOf m).length.toNat = Lib.bigEndianValue (slice m 36 4) := by
  have hlength : (slice m 36 4).length = 4 := length_slice (by
    unfold frameHeaderBytes at h
    omega)
  have hlt := Lib.bigEndianValue_lt (slice m 36 4)
  rw [hlength, four_bytes] at hlt
  show (UInt32.ofNat (Lib.bigEndianValue (slice m 36 4))).toNat = _
  rw [UInt32.toNat_ofNat', Nat.mod_eq_of_lt hlt]

/-- What the lane reader takes off: what the header says, of a frame that
is not empty and not too long. -/
theorem readLaneFrame_cases (h : readLaneFrame stream = .ok (frame, rest)) :
    ∃ total, total = frameHeaderBytes + (headerOf stream).length.toNat
        + trailerBytes (headerOf stream) ∧
      frameHeaderBytes ≤ stream.length ∧ stream.take 4 = magic ∧
      (headerOf stream).length.toNat ≠ 0 ∧ total ≤ frameBytesProven ∧ total ≤ stream.length ∧
      frame = stream.take total ∧ rest = stream.drop total := by
  unfold readLaneFrame at h
  split at h
  · cases h
  rename_i hlong
  split at h
  · cases h
  rename_i hmagic
  simp only at h
  have hlength := headerOf_length stream (by omega)
  have htrailer : (if stream.getD 4 0 &&& flagLastOfBlock ≠ 0 then blockTrailerBytes else 0)
      = trailerBytes (headerOf stream) := by
    unfold trailerBytes headerOf
    by_cases hflag : stream.getD 4 0 &&& flagLastOfBlock = 0 <;> simp
  rw [htrailer, ← hlength] at h
  split at h
  · cases h
  rename_i hsize
  split at h
  · cases h
  rename_i hends
  cases h
  exact ⟨_, rfl, by omega, by simpa using hmagic, by omega, by omega, by omega, rfl, rfl⟩

/-- The header of a stream is in what was taken off it. -/
theorem headerOf_take {total : Nat} (h : frameHeaderBytes ≤ total) :
    headerOf (m.take total) = headerOf m := by
  unfold frameHeaderBytes at h
  have hget : ∀ i < 40, (m.take total).getD i 0 = m.getD i 0 := by
    intro i hi
    simp [List.getD_eq_getElem?_getD, show i < total by omega]
  have hslice : ∀ place count, place + count ≤ 40 →
      slice (m.take total) place count = slice m place count := by
    intro place count hle
    unfold slice
    rw [List.drop_take, List.take_take, Nat.min_eq_left (by omega)]
  have htransfer : Vector.ofFn (fun i : Fin 16 => (m.take total).getD (8 + i) 0)
      = Vector.ofFn (fun i : Fin 16 => m.getD (8 + i) 0) := by
    congr 1
    funext i
    exact hget _ (by omega)
  unfold headerOf
  rw [hget 4 (by omega), hget 5 (by omega), htransfer, hslice 24 4 (by omega),
    hslice 28 8 (by omega), hslice 36 4 (by omega)]

/-- A frame is at the head of a stream that starts with it, and is taken
off whole. -/
theorem readLaneFrame_bytes (f : Frame) (hfits : f.bytes.length ≤ frameBytesProven)
    (rest : Bytes) : readLaneFrame (f.bytes ++ rest) = .ok (f.bytes, rest) := by
  have hbytes := f.length_bytes
  have hlength := f.length_eq
  have hpos := f.length_pos
  have happend : (f.bytes ++ rest).length = f.bytes.length + rest.length := List.length_append
  have hvalue : Lib.bigEndianValue (slice (f.bytes ++ rest) 36 4) = f.header.length.toNat := by
    unfold Frame.bytes
    rw [List.append_assoc, FrameHeader.value_length]
  have hflag : (f.bytes ++ rest).getD 4 0 = if f.header.lastOfBlock then flagLastOfBlock else 0 := by
    unfold Frame.bytes
    rw [List.append_assoc, FrameHeader.getD_flags]
  have hmagic : (f.bytes ++ rest).take 4 = magic := by
    unfold Frame.bytes
    rw [List.append_assoc, FrameHeader.write_append]
    rfl
  have htrailer : (if (f.bytes ++ rest).getD 4 0 &&& flagLastOfBlock ≠ 0 then blockTrailerBytes
      else 0) = trailerBytes f.header := by
    rw [hflag]
    unfold trailerBytes
    cases f.header.lastOfBlock <;> rfl
  unfold readLaneFrame
  rw [if_neg (by omega), if_neg (not_not.mpr hmagic)]
  simp only
  rw [htrailer, hvalue, if_neg (by omega), if_neg (by omega), ← hbytes, List.take_left,
    List.drop_left]

/-- What is taken off a lane is parsed when its other flag bits and its
reserved bytes are zero. -/
theorem readLaneFrame_parses (h : readLaneFrame stream = .ok (frame, rest)) :
    (∃ f, parseFrame frame = .ok f) ↔
      frame.getD 4 0 &&& ~~~flagLastOfBlock = 0 ∧ frame.getD 6 0 = 0 ∧ frame.getD 7 0 = 0 := by
  obtain ⟨total, htotal, hlong, hmagic, hpos, -, hends, rfl, -⟩ := readLaneFrame_cases h
  rw [parseFrame_ok_iff]
  constructor
  · exact fun hparses => ⟨hparses.flags, hparses.reserved⟩
  · rintro ⟨hflags, hreserved⟩
    have hheader : headerOf (stream.take total) = headerOf stream :=
      headerOf_take (by omega)
    have hlength : (stream.take total).length = total := by
      rw [List.length_take, Nat.min_eq_left hends]
    constructor
    · omega
    · unfold frameHeaderBytes at htotal
      rw [List.take_take, Nat.min_eq_left (by omega), hmagic]
    · exact hflags
    · exact hreserved
    · rw [hheader, hlength]
      exact ⟨hpos, htotal.symm⟩

/-- With fuel for the stream, the frames of a stream are read back. -/
theorem laneFrames_bytes : ∀ (frames : List Frame) (fuel : Nat),
    (∀ f ∈ frames, f.bytes.length ≤ frameBytesProven) → frames.length < fuel →
    laneFrames fuel (frames.flatMap Frame.bytes) = frames.map Frame.bytes := by
  intro frames
  induction frames with
  | nil =>
    intro fuel _ hfuel
    obtain ⟨fuel, rfl⟩ := Nat.exists_eq_succ_of_ne_zero (by omega : fuel ≠ 0)
    rfl
  | cons f frames ih =>
    intro fuel hfits hfuel
    obtain ⟨fuel, rfl⟩ := Nat.exists_eq_succ_of_ne_zero (by omega : fuel ≠ 0)
    rw [List.length_cons] at hfuel
    rw [List.flatMap_cons, List.map_cons, laneFrames,
      readLaneFrame_bytes f (hfits f (List.mem_cons_self ..))]
    simp only
    rw [ih fuel (fun g hg => hfits g (List.mem_cons_of_mem _ hg)) (by omega)]

theorem length_le_length_flatMap (frames : List Frame) :
    frames.length ≤ (frames.flatMap Frame.bytes).length := by
  induction frames with
  | nil => simp
  | cons f frames ih =>
    have hpos : 0 < f.bytes.length := by
      rw [f.length_bytes]
      unfold frameHeaderBytes
      omega
    rw [List.flatMap_cons, List.length_append, List.length_cons]
    omega

/-- The two readers of a frame. A message is parsed to a frame exactly when
it is that frame's bytes. A frame of up to `frameBytesProven` bytes is taken
off a lane whole, and with it nothing of what follows; a lane of such frames
is read back; and what is taken off a lane is as long as its header says,
and is parsed exactly when its other flag bits and its reserved bytes are
zero. -/
theorem frame_codec :
    (∀ f : Frame, parseFrame f.bytes = .ok f) ∧
    (∀ (m : Bytes) (f : Frame), parseFrame m = .ok f → m = f.bytes) ∧
    (∀ (f : Frame) (rest : Bytes), f.bytes.length ≤ frameBytesProven →
      readLaneFrame (f.bytes ++ rest) = .ok (f.bytes, rest)) ∧
    (∀ frames : List Frame, (∀ f ∈ frames, f.bytes.length ≤ frameBytesProven) →
      readLaneFrames (frames.flatMap Frame.bytes) = frames.map Frame.bytes) ∧
    ∀ stream frame rest : Bytes, readLaneFrame stream = .ok (frame, rest) →
      stream = frame ++ rest ∧ frame.length ≤ frameBytesProven ∧
      frame.length = frameHeaderBytes + (headerOf frame).length.toNat
        + trailerBytes (headerOf frame) ∧
      ((∃ f, parseFrame frame = .ok f) ↔
        frame.getD 4 0 &&& ~~~flagLastOfBlock = 0 ∧ frame.getD 6 0 = 0 ∧ frame.getD 7 0 = 0) := by
  refine ⟨parseFrame_bytes, fun m f h => (bytes_of_parseFrame h).symm,
    fun f rest hfits => readLaneFrame_bytes f hfits rest, ?_, ?_⟩
  · intro frames hfits
    have hle := length_le_length_flatMap frames
    exact laneFrames_bytes frames _ hfits (by omega)
  · intro stream frame rest h
    obtain ⟨total, htotal, -, -, -, hfits, hends, hframe, hrest⟩ := readLaneFrame_cases h
    have hlength : frame.length = total := by
      rw [hframe, List.length_take, Nat.min_eq_left hends]
    have hheader : headerOf frame = headerOf stream := by
      rw [hframe]
      exact headerOf_take (by omega)
    refine ⟨?_, by omega, ?_, readLaneFrame_parses h⟩
    · rw [hframe, hrest, List.take_append_drop]
    · rw [hlength, hheader, htotal]

/-- A frame of one byte whose first reserved byte is not zero. -/
def reservedFrame : Bytes :=
  magic ++ [0, 0, 1, 0] ++ List.replicate 28 0 ++ [0, 0, 0, 1] ++ [7]

/-- The lane reader takes off a frame that `parseFrame` refuses. -/
theorem lane_takes_reserved :
    (readLaneFrame reservedFrame).toOption = some (reservedFrame, []) ∧
      (parseFrame reservedFrame).isOk = false := by
  decide +kernel

/-! ### The engine's frames -/

/-- What `check` asks of a header. -/
structure FrameHeader.Fits (h : FrameHeader) (totalSize : Nat) : Prop where
  small : h.offset.toNat + h.length.toNat < 2 ^ 64
  nonempty : h.length.toNat ≠ 0
  inside : h.offset.toNat < totalSize
  index : h.blockIndex.toNat = h.offset.toNat / blockBytes
  one : h.offset.toNat + h.length.toNat ≤ blockEnd totalSize h.blockIndex.toNat
  last : h.lastOfBlock
    = decide (h.offset.toNat + h.length.toNat = blockEnd totalSize h.blockIndex.toNat)

theorem check_ok_iff (h : FrameHeader) (totalSize : Nat) :
    h.check totalSize = .ok () ↔ h.Fits totalSize := by
  have hlength : h.length = 0 ↔ h.length.toNat = 0 := UInt32.toNat_inj.symm
  have hblock : min ((h.blockIndex.toNat + 1) * blockBytes) totalSize
      = blockEnd totalSize h.blockIndex.toNat := by
    rw [blockEnd, Nat.mul_comm]
  unfold FrameHeader.check
  simp only [hlength, hblock]
  constructor
  · intro hok
    split at hok
    · cases hok
    rename_i hsmall
    split at hok
    · cases hok
    rename_i hrange
    split at hok
    · cases hok
    rename_i hone
    split at hok
    · cases hok
    rename_i hlast
    simp only [not_or, not_le, not_not] at hrange hlast
    exact ⟨by omega, hrange.1, hrange.2.1, hrange.2.2, by omega, hlast⟩
  · rintro ⟨hsmall, hnonempty, hinside, hindex, hone, hlast⟩
    rw [if_neg (by omega), if_neg (by omega), if_neg (by omega), if_neg (not_not.mpr hlast)]

/-- `check` of the bytes' header and of the engine's agree. -/
theorem check_toHeader (idString : Vector UInt8 16 → String) (h : FrameHeader) (totalSize : Nat) :
    (h.toHeader idString).check totalSize = true ↔ h.check totalSize = .ok () := by
  rw [check_ok_iff]
  unfold Transfer.FrameHeader.check FrameHeader.toHeader
  simp only [Bool.and_eq_true, decide_eq_true_eq, beq_iff_eq]
  constructor
  · rintro ⟨⟨⟨⟨⟨hsmall, hnonempty⟩, hinside⟩, hindex⟩, hone⟩, hlast⟩
    exact ⟨hsmall, hnonempty, hinside, hindex, hone, hlast⟩
  · rintro ⟨hsmall, hnonempty, hinside, hindex, hone, hlast⟩
    exact ⟨⟨⟨⟨⟨hsmall, hnonempty⟩, hinside⟩, hindex⟩, hone⟩, hlast⟩

end DeskLink.Transfer.Wire
