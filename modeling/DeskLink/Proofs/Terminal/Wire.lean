import DeskLink.Terminal.Wire

/-!
# `DeskLink.Proofs.Terminal.Wire`: the chunk codec

`decode_bytes` and `bytes_of_decode` are the two ways between a chunk that
may be sent and its message. `splitPieces_spec` is the splitter: it carries
the offset of the next frame.
-/

set_option autoImplicit false

namespace DeskLink.Terminal.Wire

open Lib

variable {a b m data : List UInt8} {count place : Nat} {kind : ChunkKind} {chunk : TerminalChunk}

/-! ### Fields -/

theorem field_append {k : Nat} (h : a.length = k) (i count : Nat) :
    TerminalChunk.field (a ++ b) (k + i) count = TerminalChunk.field b i count := by
  subst h
  have hnone : a.drop (a.length + i) = [] := List.drop_eq_nil_of_le (by omega)
  simp [TerminalChunk.field, List.drop_append, hnone]

theorem field_head (h : a.length = count) : TerminalChunk.field (a ++ b) 0 count = a := by
  subst h
  simp [TerminalChunk.field]

theorem length_field (h : place + count ≤ m.length) :
    (TerminalChunk.field m place count).length = count := by
  unfold TerminalChunk.field
  rw [List.length_take, List.length_drop]
  omega

/-- A field and what comes after it. -/
theorem field_drop (m : List UInt8) (place count : Nat) :
    TerminalChunk.field m place count ++ m.drop (place + count) = m.drop place := by
  unfold TerminalChunk.field
  rw [← List.drop_drop]
  exact List.take_append_drop _ _

theorem bigEndian_field (h : place + count ≤ m.length) :
    bigEndian count (bigEndianValue (TerminalChunk.field m place count))
      = TerminalChunk.field m place count := by
  have hback := bigEndian_bigEndianValue (TerminalChunk.field m place count)
  rw [length_field h] at hback
  exact hback

/-! ### What may be sent -/

theorem parseKind_wireValue (kind : ChunkKind) : parseKind (wireValue kind) = .ok kind := by
  cases kind <;> rfl

theorem wireValue_of_parseKind {value : UInt8} (h : parseKind value = .ok kind) :
    wireValue kind = value := by
  unfold parseKind at h
  split at h
  · cases h
    exact Eq.symm ‹value = 0›
  · split at h
    · cases h
      exact Eq.symm ‹value = 1›
    · split at h
      · cases h
        exact Eq.symm ‹value = 2›
      · cases h

/-- The id and the data are what both sides admit. -/
structure TerminalChunk.Valid (chunk : TerminalChunk) : Prop where
  id : validateTerminalId chunk.terminalId = .ok ()
  data : validateChunkData chunk.data = .ok ()

theorem length_id {value : String} (h : validateTerminalId value = .ok ()) :
    (utf8Bytes value).length ≤ 128 := by
  unfold validateTerminalId at h
  split at h
  · cases h
  · omega

theorem length_data (h : validateChunkData data = .ok ()) :
    data.length ≤ maxTerminalChunkBytes := by
  unfold validateChunkData at h
  split at h
  · cases h
  · omega

theorem encode_ok_iff (chunk : TerminalChunk) (m : List UInt8) :
    chunk.encode = .ok m ↔ chunk.Valid ∧ m = chunk.bytes := by
  unfold TerminalChunk.encode
  cases hid : validateTerminalId chunk.terminalId with
  | error e => exact ⟨fun h => (by cases h), fun h => (by rw [h.1.id] at hid; cases hid)⟩
  | ok u =>
    cases hdata : validateChunkData chunk.data with
    | error e => exact ⟨fun h => (by cases h), fun h => (by rw [h.1.data] at hdata; cases hdata)⟩
    | ok v =>
      -- What is admitted is far below the widths of the length fields.
      have hlong : ¬2 ^ 16 ≤ (utf8Bytes chunk.terminalId).length := by
        have hle := length_id hid
        omega
      have hlarge : ¬2 ^ 32 ≤ chunk.data.length := by
        have hle : chunk.data.length ≤ 16 * 1024 := length_data hdata
        omega
      show (if _ then _ else _ : Except String (List UInt8)) = _ ↔ _
      rw [if_neg hlong]
      show (if _ then _ else _ : Except String (List UInt8)) = _ ↔ _
      rw [if_neg hlarge]
      constructor
      · intro h
        exact ⟨⟨hid, hdata⟩, (Except.ok.inj h).symm⟩
      · rintro ⟨-, rfl⟩
        rfl

theorem checked_ok_iff (chunk c : TerminalChunk) :
    chunk.checked = .ok c ↔ chunk.Valid ∧ c = chunk := by
  unfold TerminalChunk.checked
  cases hid : validateTerminalId chunk.terminalId with
  | error e => exact ⟨fun h => (by cases h), fun h => (by rw [h.1.id] at hid; cases hid)⟩
  | ok u =>
    cases hdata : validateChunkData chunk.data with
    | error e => exact ⟨fun h => (by cases h), fun h => (by rw [h.1.data] at hdata; cases hdata)⟩
    | ok v =>
      constructor
      · intro h
        exact ⟨⟨hid, hdata⟩, (Except.ok.inj h).symm⟩
      · rintro ⟨-, rfl⟩
        rfl

/-! ### There and back -/

/-- The message, field by field. -/
theorem bytes_append (chunk : TerminalChunk) :
    chunk.bytes = magic ++ ([wireValue chunk.kind]
      ++ (bigEndian 2 (utf8Bytes chunk.terminalId).length
      ++ (bigEndian 8 chunk.offset.toNat ++ (bigEndian 4 chunk.data.length
      ++ (utf8Bytes chunk.terminalId ++ chunk.data))))) := by
  simp [TerminalChunk.bytes]

/-- The message of a chunk that may be sent is read back. -/
theorem decode_bytes (h : chunk.Valid) : TerminalChunk.decode chunk.bytes = .ok chunk := by
  have hid := length_id h.id
  have hdata : chunk.data.length ≤ 16 * 1024 := length_data h.data
  have hidField : TerminalChunk.field chunk.bytes 5 2
      = bigEndian 2 (utf8Bytes chunk.terminalId).length := by
    rw [bytes_append]
    show TerminalChunk.field _ (4 + (1 + 0)) 2 = _
    rw [field_append (k := 4) rfl, field_append (k := 1) rfl, field_head (by simp)]
  have hoffsetField : TerminalChunk.field chunk.bytes 7 8 = bigEndian 8 chunk.offset.toNat := by
    rw [bytes_append]
    show TerminalChunk.field _ (4 + (1 + (2 + 0))) 8 = _
    rw [field_append (k := 4) rfl, field_append (k := 1) rfl, field_append (k := 2) (by simp),
      field_head (by simp)]
  have hdataField : TerminalChunk.field chunk.bytes 15 4 = bigEndian 4 chunk.data.length := by
    rw [bytes_append]
    show TerminalChunk.field _ (4 + (1 + (2 + (8 + 0)))) 4 = _
    rw [field_append (k := 4) rfl, field_append (k := 1) rfl, field_append (k := 2) (by simp),
      field_append (k := 8) (by simp), field_head (by simp)]
  have hidLength : bigEndianValue (TerminalChunk.field chunk.bytes 5 2)
      = (utf8Bytes chunk.terminalId).length := by
    rw [hidField, bigEndianValue_bigEndian]
    exact Nat.mod_eq_of_lt (by omega)
  have hdataLength : bigEndianValue (TerminalChunk.field chunk.bytes 15 4)
      = chunk.data.length := by
    rw [hdataField, bigEndianValue_bigEndian]
    exact Nat.mod_eq_of_lt (by omega)
  have hoffset : UInt64.ofNat (bigEndianValue (TerminalChunk.field chunk.bytes 7 8))
      = chunk.offset := by
    rw [hoffsetField, bigEndianValue_bigEndian, show 256 ^ 8 = 2 ^ 64 by norm_num,
      Nat.mod_eq_of_lt chunk.offset.toNat_lt]
    exact UInt64.ofNat_toNat
  have hlength : chunk.bytes.length
      = chunkHeaderBytes + (utf8Bytes chunk.terminalId).length + chunk.data.length := by
    rw [bytes_append]
    simp only [List.length_append, length_bigEndian, List.length_singleton, chunkHeaderBytes]
    show 4 + _ = _
    omega
  have htext : TerminalChunk.field chunk.bytes chunkHeaderBytes
      (utf8Bytes chunk.terminalId).length = utf8Bytes chunk.terminalId := by
    rw [bytes_append]
    show TerminalChunk.field _ (4 + (1 + (2 + (8 + (4 + 0))))) _ = _
    rw [field_append (k := 4) rfl, field_append (k := 1) rfl, field_append (k := 2) (by simp),
      field_append (k := 8) (by simp), field_append (k := 4) (by simp), field_head rfl]
  have hrest : chunk.bytes.drop (chunkHeaderBytes + (utf8Bytes chunk.terminalId).length)
      = chunk.data := by
    have hsplit : chunk.bytes = (magic ++ ([wireValue chunk.kind]
        ++ (bigEndian 2 (utf8Bytes chunk.terminalId).length ++ (bigEndian 8 chunk.offset.toNat
        ++ (bigEndian 4 chunk.data.length ++ utf8Bytes chunk.terminalId))))) ++ chunk.data := by
      simp [TerminalChunk.bytes]
    rw [hsplit]
    refine List.drop_left' ?_
    simp only [List.length_append, length_bigEndian, List.length_singleton, chunkHeaderBytes]
    show 4 + _ = _
    omega
  have hmagic : ¬(chunk.bytes.length < chunkHeaderBytes ∨ chunk.bytes.take 4 ≠ magic) := by
    rw [not_or, not_not]
    refine ⟨by omega, ?_⟩
    rw [bytes_append]
    rfl
  have hkind : chunk.bytes.getD 4 0 = wireValue chunk.kind := by
    rw [bytes_append]
    rfl
  unfold TerminalChunk.decode
  rw [if_neg hmagic, hkind, parseKind_wireValue]
  simp only
  rw [hidLength, hdataLength, if_neg (by omega), htext, utf8Text_utf8Bytes]
  simp only
  rw [hoffset, hrest]
  exact (checked_ok_iff chunk chunk).mpr ⟨h, rfl⟩

/-- What is read may be sent, and its message is the one that was read. -/
theorem bytes_of_decode (h : TerminalChunk.decode m = .ok chunk) :
    chunk.Valid ∧ chunk.bytes = m := by
  unfold TerminalChunk.decode at h
  split at h
  · cases h
  rename_i hhead
  rw [not_or, not_not] at hhead
  obtain ⟨hlong, hmagic⟩ := hhead
  have hlong' : 19 ≤ m.length := by
    simp only [chunkHeaderBytes] at hlong
    omega
  cases hkind : parseKind (m.getD 4 0) with
  | error error =>
    rw [hkind] at h
    cases h
  | ok kind =>
    rw [hkind] at h
    simp only at h
    split at h
    · cases h
    rename_i hlength
    rw [not_not] at hlength
    split at h
    · cases h
    rename_i terminalId htext
    obtain ⟨hvalid, rfl⟩ := (checked_ok_iff _ _).mp h
    refine ⟨hvalid, ?_⟩
    generalize hid : bigEndianValue (TerminalChunk.field m 5 2) = idLength at *
    generalize hdata : bigEndianValue (TerminalChunk.field m 15 4) = dataLength at *
    simp only [chunkHeaderBytes] at hlength htext ⊢
    -- The fields of the message, one after the other, are the message.
    have hbytes : utf8Bytes terminalId = TerminalChunk.field m 19 idLength :=
      utf8Bytes_of_utf8Text htext
    have hidLength : (utf8Bytes terminalId).length = idLength := by
      rw [hbytes]
      exact length_field (by omega)
    have hdataLength : (m.drop (19 + idLength)).length = dataLength := by
      rw [List.length_drop]
      omega
    have hidField : bigEndian 2 idLength = TerminalChunk.field m 5 2 := by
      rw [← hid]
      exact bigEndian_field (by omega)
    have hdataField : bigEndian 4 dataLength = TerminalChunk.field m 15 4 := by
      rw [← hdata]
      exact bigEndian_field (by omega)
    have hoffsetField : bigEndian 8 (UInt64.ofNat
        (bigEndianValue (TerminalChunk.field m 7 8))).toNat = TerminalChunk.field m 7 8 := by
      have hlt := bigEndianValue_lt (TerminalChunk.field m 7 8)
      rw [length_field (by omega), show 256 ^ 8 = 2 ^ 64 by norm_num] at hlt
      rw [UInt64.toNat_ofNat_of_lt' hlt]
      exact bigEndian_field (by omega)
    have hkindField : [wireValue kind] = TerminalChunk.field m 4 1 := by
      rw [wireValue_of_parseKind hkind]
      exact (take_one m 4 0 (by omega)).symm
    rw [bytes_append]
    simp only
    rw [hidLength, hdataLength, hidField, hdataField, hoffsetField, hkindField, hbytes, ← hmagic]
    -- From the last field to the first.
    rw [field_drop m 19 idLength]
    rw [show m.drop 19 = m.drop (15 + 4) from rfl, field_drop m 15 4]
    rw [show m.drop 15 = m.drop (7 + 8) from rfl, field_drop m 7 8]
    rw [show m.drop 7 = m.drop (5 + 2) from rfl, field_drop m 5 2]
    rw [show m.drop 5 = m.drop (4 + 1) from rfl, field_drop m 4 1]
    exact List.take_append_drop 4 m

/-! ### The splitter -/

theorem frameLimit_pos : 0 < maxTerminalChunkBytes := by decide

/-- What every frame of a split has, and where it starts: `start` is the
offset of the first. -/
structure Frames (kind : ChunkKind) (id : String) (start : UInt64) (data : List UInt8)
    (frames : List TerminalChunk) : Prop where
  kind_eq : ∀ frame ∈ frames, frame.kind = kind
  id_eq : ∀ frame ∈ frames, frame.terminalId = id
  small : ∀ frame ∈ frames, frame.data.length ≤ maxTerminalChunkBytes
  offset_eq : ∀ i frame, frames[i]? = some frame →
    frame.offset = start + UInt64.ofNat ((frames.take i).map (·.data.length)).sum
  data_eq : (frames.map (·.data)).flatten = data

theorem splitPieces_spec (kind : ChunkKind) (id : String) (fuel : Nat) (start : UInt64)
    (data : List UInt8) (hfuel : data.length ≤ fuel) :
    Frames kind id start data (splitPieces kind id fuel start data) := by
  induction fuel generalizing start data with
  | zero =>
    have hnil : data = [] := List.length_eq_zero_iff.mp (Nat.le_zero.mp hfuel)
    subst hnil
    exact ⟨by simp [splitPieces], by simp [splitPieces], by simp [splitPieces],
      by simp [splitPieces], rfl⟩
  | succ fuel ih =>
    simp only [splitPieces]
    by_cases hnil : data = []
    · rw [if_pos hnil]
      exact ⟨by simp, by simp, by simp, by simp, by simp [hnil]⟩
    · rw [if_neg hnil]
      have hpos : 0 < data.length := List.length_pos_iff.mpr hnil
      have hlimit := frameLimit_pos
      have hrest : (data.drop maxTerminalChunkBytes).length ≤ fuel := by
        rw [List.length_drop]
        omega
      have h := ih (start + UInt64.ofNat (data.take maxTerminalChunkBytes).length)
        (data.drop maxTerminalChunkBytes) hrest
      constructor
      · exact List.forall_mem_cons.mpr ⟨rfl, h.kind_eq⟩
      · exact List.forall_mem_cons.mpr ⟨rfl, h.id_eq⟩
      · exact List.forall_mem_cons.mpr ⟨List.length_take_le _ _, h.small⟩
      · intro i frame hframe
        cases i with
        | zero =>
          rw [List.getElem?_cons_zero, Option.some.injEq] at hframe
          rw [← hframe]
          simp
        | succ i =>
          rw [List.getElem?_cons_succ] at hframe
          rw [h.offset_eq i frame hframe, List.take_succ_cons, List.map_cons, List.sum_cons,
            UInt64.ofNat_add, UInt64.add_assoc]
      · rw [List.map_cons, List.flatten_cons, h.data_eq]
        exact List.take_append_drop _ _

theorem splitChunkEvents_spec (chunk : TerminalChunk) :
    Frames chunk.kind chunk.terminalId chunk.offset chunk.data (splitChunkEvents chunk) := by
  unfold splitChunkEvents
  by_cases hsmall : chunk.data.length ≤ maxTerminalChunkBytes
  · rw [if_pos hsmall]
    refine ⟨by simp, by simp, by simpa using hsmall, fun i frame hframe => ?_, by simp⟩
    cases i with
    | zero =>
      rw [List.getElem?_cons_zero, Option.some.injEq] at hframe
      rw [← hframe]
      simp
    | succ i => cases hframe
  · rw [if_neg hsmall]
    exact splitPieces_spec _ _ _ _ _ (Nat.le_refl _)

/-- A frame of a split is a chunk that may be sent when its id is one. -/
theorem Frames.valid {id : String} {start : UInt64} {frames : List TerminalChunk}
    (h : Frames kind id start data frames) (hid : validateTerminalId id = .ok ())
    {frame : TerminalChunk} (hframe : frame ∈ frames) : frame.Valid where
  id := (h.id_eq frame hframe).symm ▸ hid
  data := by
    unfold validateChunkData
    rw [if_neg (Nat.not_lt_of_le (h.small frame hframe))]

/-- What is encoded is decoded to the same chunk, what is decoded is the
encoding of the chunk it gives, and the frames of a payload are small, are
encoded, follow one another and are the payload. -/
theorem chunk_codec :
    (∀ (chunk : TerminalChunk) (m : List UInt8), chunk.encode = .ok m →
      TerminalChunk.decode m = .ok chunk) ∧
    (∀ (m : List UInt8) (chunk : TerminalChunk), TerminalChunk.decode m = .ok chunk →
      chunk.encode = .ok m) ∧
    ∀ chunk : TerminalChunk, validateTerminalId chunk.terminalId = .ok () →
      Frames chunk.kind chunk.terminalId chunk.offset chunk.data (splitChunkEvents chunk) ∧
        ∀ frame ∈ splitChunkEvents chunk, ∃ m, frame.encode = .ok m := by
  refine ⟨fun chunk m h => ?_, fun m chunk h => ?_, fun chunk hid => ?_⟩
  · obtain ⟨hvalid, rfl⟩ := (encode_ok_iff chunk m).mp h
    exact decode_bytes hvalid
  · obtain ⟨hvalid, hbytes⟩ := bytes_of_decode h
    exact (encode_ok_iff chunk m).mpr ⟨hvalid, hbytes.symm⟩
  · have hframes := splitChunkEvents_spec chunk
    refine ⟨hframes, fun frame hframe => ⟨frame.bytes, ?_⟩⟩
    exact (encode_ok_iff frame _).mpr ⟨hframes.valid hid hframe, rfl⟩

/-- Five bytes of output. -/
def fiveBytes : TerminalChunk := ⟨.output, "0123abcd-ef", 4294967296, [0x00, 0x1b, 0x5b, 0xff, 0xc3]⟩

/-- They go there and back, and back and there, in the frames they are split into. -/
theorem chunk_codec_five :
    TerminalChunk.decode fiveBytes.bytes = .ok fiveBytes ∧
      fiveBytes.encode = .ok fiveBytes.bytes ∧
      Frames .output "0123abcd-ef" 4294967296 fiveBytes.data (splitChunkEvents fiveBytes) ∧
      ∀ frame ∈ splitChunkEvents fiveBytes, ∃ m, frame.encode = .ok m := by
  have hencode : fiveBytes.encode = .ok fiveBytes.bytes := by decide +kernel
  have hdecode : TerminalChunk.decode fiveBytes.bytes = .ok fiveBytes := by decide +kernel
  have hid : validateTerminalId fiveBytes.terminalId = .ok () := by decide +kernel
  exact ⟨chunk_codec.1 _ _ hencode, chunk_codec.2.1 _ _ hdecode, chunk_codec.2.2 fiveBytes hid⟩

end DeskLink.Terminal.Wire
