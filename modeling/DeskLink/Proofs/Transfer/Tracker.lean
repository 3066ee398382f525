import DeskLink.Proofs.Transfer.Board
import DeskLink.Transfer.Progress

/-!
# `DeskLink.Proofs.Transfer.Tracker`: what a sample of the Bucket does

`parts` and `failedOf` read a phone's batch, with none for a phone that has no batch.
`HasRoom` says that the rows of a sample fit into their batches. Then `taken_listed` and
`taken_unlisted` say what taking them in does, `closed_part` and `closed_failed` what closing
the rest does, and `mem_endedBatches` and `sampled_batch` which batches end.
-/

set_option autoImplicit false

namespace DeskLink.Board

variable {batches : KeyMap Batch} {device : String} {row : TransferRow} {rows : List TransferRow}

/-! ### The batch of a phone -/

/-- The parts of a phone's batch. -/
def parts (batches : KeyMap Batch) (device : String) : KeyMap Part :=
  (batches[device]?.getD {}).parts

/-- A part of the phone's batch failed. -/
def failedOf (batches : KeyMap Batch) (device : String) : Bool :=
  (batches[device]?.getD {}).failed

theorem parts_of_getElem? {batch : Batch} (h : batches[device]? = some batch) :
    parts batches device = batch.parts := by
  rw [parts, h, Option.getD_some]

theorem failedOf_of_getElem? {batch : Batch} (h : batches[device]? = some batch) :
    failedOf batches device = batch.failed := by
  rw [failedOf, h, Option.getD_some]

theorem parts_of_none (h : batches[device]? = none) : parts batches device = ∅ := by
  rw [parts, h, Option.getD_none]

theorem failedOf_of_none (h : batches[device]? = none) : failedOf batches device = false := by
  rw [failedOf, h, Option.getD_none]

/-- Whoever has a part has a batch. -/
theorem batch_of_part {id : String} {part : Part} (h : (parts batches device)[id]? = some part) :
    ∃ batch, batches[device]? = some batch ∧ batch.parts[id]? = some part := by
  cases hbatch : batches[device]? with
  | none => simp [parts_of_none hbatch] at h
  | some batch =>
    rw [parts_of_getElem? hbatch] at h
    exact ⟨batch, rfl, h⟩

/-- Whoever failed has a batch. -/
theorem batch_of_failed (h : failedOf batches device = true) :
    ∃ batch, batches[device]? = some batch := by
  cases hbatch : batches[device]? with
  | none => simp [failedOf_of_none hbatch] at h
  | some batch => exact ⟨batch, rfl⟩

/-! ### Rows that are taken in -/

/-- The rows of a phone that its batch does not have. -/
def newRows (batches : KeyMap Batch) (device : String) (rows : List TransferRow) :
    List TransferRow :=
  rows.filter (fun row => row.deviceId = device && !(parts batches device).contains row.id)

theorem newRows_known (h : (parts batches device).contains row.id = true) :
    newRows batches device (row :: rows) = newRows batches device rows := by
  rw [newRows, List.filter_cons_of_neg (by simp [h]), newRows]

theorem newRows_other (h : row.deviceId ≠ device) :
    newRows batches device (row :: rows) = newRows batches device rows := by
  rw [newRows, List.filter_cons_of_neg (by simp [h]), newRows]

theorem newRows_new (h : (parts batches row.deviceId).contains row.id = false) :
    newRows batches row.deviceId (row :: rows) = row :: newRows batches row.deviceId rows := by
  rw [newRows, List.filter_cons_of_pos (by simp [h]), newRows]

/-- Every batch has room for the new rows of its phone. -/
def HasRoom (batches : KeyMap Batch) (rows : List TransferRow) : Prop :=
  ∀ device, (parts batches device).size + (newRows batches device rows).length ≤ maxBatchFiles

/-- Only phones with a batch or a row need room. -/
theorem hasRoom_iff (batches : KeyMap Batch) (rows : List TransferRow) :
    HasRoom batches rows ↔ ∀ device ∈ batches.keys ++ rows.map (·.deviceId),
      (parts batches device).size + (newRows batches device rows).length ≤ maxBatchFiles := by
  refine ⟨fun h device _ => h device, fun h device => ?_⟩
  by_cases hdevice : device ∈ batches.keys ++ rows.map (·.deviceId)
  · exact h device hdevice
  · rw [List.mem_append, not_or, Std.ExtTreeMap.mem_keys] at hdevice
    have hnone : newRows batches device rows = [] := by
      rw [newRows, List.filter_eq_nil_iff]
      intro row hrow
      have hother : row.deviceId ≠ device :=
        fun heq => hdevice.2 (List.mem_map.mpr ⟨row, hrow, heq⟩)
      simp [hother]
    rw [hnone, parts_of_none (Std.ExtTreeMap.getElem?_eq_none hdevice.1)]
    simp

instance (batches : KeyMap Batch) (rows : List TransferRow) : Decidable (HasRoom batches rows) :=
  decidable_of_iff _ (hasRoom_iff batches rows).symm

/-- The part of a row that moves. -/
def TransferRow.part (row : TransferRow) : Part :=
  { done := row.done, total := row.total, incoming := row.incoming, ended := false }

theorem takeRow_other (batches : KeyMap Batch) (h : row.deviceId ≠ device) :
    (takeRow batches row)[device]? = batches[device]? := by
  rw [takeRow, getElem?_keyInsert, if_neg h]

theorem takeRow_failed (batches : KeyMap Batch) (row : TransferRow) (device : String) :
    failedOf (takeRow batches row) device = failedOf batches device := by
  by_cases h : row.deviceId = device
  · subst h
    rw [failedOf, takeRow, getElem?_keyInsert, if_pos rfl, Option.getD_some, Batch.take]
    split <;> rfl
  · rw [failedOf, takeRow_other batches h, failedOf]

/-- A row that has room is in its batch, and moves. -/
theorem takeRow_parts (h : HasRoom batches (row :: rows)) : parts (takeRow batches row) row.deviceId
      = (parts batches row.deviceId).insert row.id row.part := by
  have hroom : ((parts batches row.deviceId).size < maxBatchFiles
      || (parts batches row.deviceId).contains row.id) = true := by
    have hphone := h row.deviceId
    cases hcontains : (parts batches row.deviceId).contains row.id with
    | true => simp
    | false =>
      rw [newRows_new hcontains, List.length_cons] at hphone
      have hlt : (parts batches row.deviceId).size < maxBatchFiles := by omega
      simpa using hlt
  rw [parts] at hroom
  rw [parts, takeRow, getElem?_keyInsert, if_pos rfl, Option.getD_some, Batch.take,
    if_pos hroom, parts, TransferRow.part]

theorem takeRow_parts_other (batches : KeyMap Batch) (h : row.deviceId ≠ device) :
    parts (takeRow batches row) device = parts batches device := by
  rw [parts, takeRow_other batches h, parts]

/-- What is left has room once a row is taken in. -/
theorem takeRow_room (h : HasRoom batches (row :: rows)) : HasRoom (takeRow batches row) rows := by
  intro device
  have hphone := h device
  by_cases hdevice : row.deviceId = device
  · subst hdevice
    have hfewer : (newRows (takeRow batches row) row.deviceId rows).length
        ≤ (newRows batches row.deviceId rows).length := by
      refine (List.monotone_filter_right rows (fun known hknown => ?_)).length_le
      simp only [takeRow_parts h, Std.ExtTreeMap.contains_insert, Bool.and_eq_true,
        Bool.not_eq_true', Bool.or_eq_false_iff] at hknown ⊢
      exact ⟨hknown.1, hknown.2.2⟩
    rw [takeRow_parts h, Std.ExtTreeMap.size_insert]
    cases hcontains : (parts batches row.deviceId).contains row.id with
    | true =>
      rw [newRows_known hcontains] at hphone
      rw [if_pos rfl]
      omega
    | false =>
      rw [newRows_new hcontains, List.length_cons] at hphone
      rw [if_neg Bool.false_ne_true]
      omega
  · rw [newRows_other hdevice] at hphone
    rw [newRows, takeRow_parts_other batches hdevice]
    exact hphone

/-- A row that is listed is in its batch, and moves. -/
theorem taken_listed (h : HasRoom batches rows) (hrow : row ∈ rows) :
    ∃ part : Part, (parts (rows.foldl takeRow batches) row.deviceId)[row.id]? = some part ∧
      part.ended = false := by
  -- Once a part moves, taking in more rows leaves it so.
  have hkeep : ∀ (more : List TransferRow) (batches : KeyMap Batch), HasRoom batches more →
      (∃ part : Part, (parts batches row.deviceId)[row.id]? = some part ∧ part.ended = false) →
      ∃ part : Part, (parts (more.foldl takeRow batches) row.deviceId)[row.id]? = some part ∧
        part.ended = false := by
    intro more
    induction more with
    | nil => exact fun _ _ hpart => hpart
    | cons next more ih =>
      intro batches hroom hpart
      refine ih _ (takeRow_room hroom) ?_
      by_cases hdevice : next.deviceId = row.deviceId
      · rw [← hdevice, takeRow_parts hroom, getElem?_keyInsert]
        split
        · exact ⟨next.part, rfl, rfl⟩
        · rw [hdevice]
          exact hpart
      · rw [takeRow_parts_other batches hdevice]
        exact hpart
  induction rows generalizing batches with
  | nil => cases hrow
  | cons first rows ih =>
    rcases List.mem_cons.mp hrow with rfl | hrest
    · refine hkeep rows _ (takeRow_room h) ⟨row.part, ?_, rfl⟩
      rw [takeRow_parts h, getElem?_keyInsert, if_pos rfl]
    · exact ih (takeRow_room h) hrest

/-- What is not listed stays as it is. -/
theorem taken_unlisted (h : HasRoom batches rows) {id : String}
    (hnone : ∀ row ∈ rows, row.deviceId = device → row.id ≠ id) :
    (parts (rows.foldl takeRow batches) device)[id]? = (parts batches device)[id]? := by
  induction rows generalizing batches with
  | nil => rfl
  | cons row rows ih =>
    rw [List.foldl_cons, ih (takeRow_room h) fun known hknown =>
      hnone known (List.mem_cons_of_mem _ hknown)]
    by_cases hdevice : row.deviceId = device
    · subst hdevice
      rw [takeRow_parts h, getElem?_keyInsert, if_neg (hnone row List.mem_cons_self rfl)]
    · rw [takeRow_parts_other batches hdevice]

theorem taken_failed (batches : KeyMap Batch) (rows : List TransferRow) (device : String) :
    failedOf (rows.foldl takeRow batches) device = failedOf batches device := by
  induction rows generalizing batches with
  | nil => rfl
  | cons row rows ih => rw [List.foldl_cons, ih, takeRow_failed]

/-! ### Parts that end -/

theorem closed_getElem? (tracker : Tracker) (rows : List TransferRow) (failed : List String)
    (device : String) :
    (tracker.closed rows failed)[device]?
      = (rows.foldl takeRow tracker.batches)[device]?.map (Batch.close rows failed) := by
  rw [Tracker.closed, Std.ExtTreeMap.getElem?_map]

theorem closed_part (tracker : Tracker) (rows : List TransferRow) (failed : List String)
    (device id : String) :
    (parts (tracker.closed rows failed) device)[id]?
      = (parts (rows.foldl takeRow tracker.batches) device)[id]?.map
          (Part.close rows failed id) := by
  cases hbatch : (rows.foldl takeRow tracker.batches)[device]? with
  | none =>
    have hnone : (tracker.closed rows failed)[device]? = none := by
      rw [closed_getElem?, hbatch, Option.map_none]
    rw [parts_of_none hbatch, parts_of_none hnone]
    simp
  | some batch =>
    have hsome : (tracker.closed rows failed)[device]? = some (batch.close rows failed) := by
      rw [closed_getElem?, hbatch, Option.map_some]
    rw [parts_of_getElem? hbatch, parts_of_getElem? hsome, Batch.close,
      Std.ExtTreeMap.getElem?_map]

/-- A batch fails with the first of its parts that ends among the failed. -/
theorem closed_failed (tracker : Tracker) (rows : List TransferRow) (failed : List String)
    (device : String) :
    failedOf (tracker.closed rows failed) device = true ↔
      failedOf tracker.batches device = true ∨
        ∃ (id : String) (part : Part),
          (parts (rows.foldl takeRow tracker.batches) device)[id]? = some part ∧
            part.fails rows failed id = true := by
  rw [← taken_failed tracker.batches rows device]
  cases hbatch : (rows.foldl takeRow tracker.batches)[device]? with
  | none =>
    have hnone : (tracker.closed rows failed)[device]? = none := by
      rw [closed_getElem?, hbatch, Option.map_none]
    rw [failedOf_of_none hbatch, failedOf_of_none hnone, parts_of_none hbatch]
    simp
  | some batch =>
    have hsome : (tracker.closed rows failed)[device]? = some (batch.close rows failed) := by
      rw [closed_getElem?, hbatch, Option.map_some]
    rw [failedOf_of_getElem? hbatch, failedOf_of_getElem? hsome, parts_of_getElem? hbatch,
      Batch.close, Bool.or_eq_true, List.any_eq_true]
    constructor
    · rintro (hfailed | ⟨⟨id, part⟩, hentry, hfails⟩)
      · exact .inl hfailed
      · exact .inr ⟨id, part, Std.ExtTreeMap.mem_toList_iff_getElem?_eq_some.mp hentry, hfails⟩
    · rintro (hfailed | ⟨id, part, hpart, hfails⟩)
      · exact .inl hfailed
      · exact .inr ⟨(id, part), Std.ExtTreeMap.mem_toList_iff_getElem?_eq_some.mpr hpart, hfails⟩

theorem close_ended (rows : List TransferRow) (failed : List String) (id : String) (part : Part) :
    (Part.close rows failed id part).ended = (part.ended || !rows.any (·.id = id)) := by
  unfold Part.close
  by_cases hkept : (part.ended || rows.any (·.id = id)) = true
  · rw [if_pos hkept]
    cases hended : part.ended with
    | true => rfl
    | false =>
      rw [hended, Bool.false_or] at hkept
      rw [hkept]
      rfl
  · rw [if_neg hkept]
    rw [Bool.not_eq_true, Bool.or_eq_false_iff] at hkept
    rw [hkept.1, hkept.2]
    split <;> rfl

/-! ### Batches that end -/

theorem allEnded_iff (batch : Batch) :
    batch.allEnded = true ↔
      ∀ (id : String) (part : Part), batch.parts[id]? = some part → part.ended = true := by
  rw [Batch.allEnded, List.all_eq_true]
  constructor
  · intro h id part hpart
    exact h (id, part) (Std.ExtTreeMap.mem_toList_iff_getElem?_eq_some.mpr hpart)
  · rintro h ⟨id, part⟩ hentry
    exact h id part (Std.ExtTreeMap.mem_toList_iff_getElem?_eq_some.mp hentry)

theorem mem_endedBatches (tracker : Tracker) (rows : List TransferRow) (failed : List String)
    (device : String) (batch : Batch) :
    (device, batch) ∈ tracker.endedBatches rows failed ↔
      (tracker.closed rows failed)[device]? = some batch ∧ batch.allEnded = true := by
  rw [Tracker.endedBatches, List.mem_filter, Std.ExtTreeMap.mem_toList_iff_getElem?_eq_some]

theorem nodup_endedBatches (tracker : Tracker) (rows : List TransferRow)
    (failed : List String) : (tracker.endedBatches rows failed).Nodup := by
  refine List.Nodup.filter _ (List.Nodup.of_map Prod.fst ?_)
  rw [Std.ExtTreeMap.map_fst_toList_eq_keys]
  exact Std.ExtTreeMap.nodup_keys

/-- The batches that are left are the closed ones that are not over. -/
theorem sampled_batch (tracker : Tracker) (rows : List TransferRow) (failed : List String)
    (device : String) :
    (tracker.sample rows failed).1.batches[device]?
      = (tracker.closed rows failed)[device]?.filter (fun batch => !batch.allEnded) := by
  rw [Tracker.sample, Std.ExtTreeMap.getElem?_filter']

end DeskLink.Board
