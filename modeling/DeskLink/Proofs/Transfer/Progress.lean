import DeskLink.Lib.Run
import DeskLink.Proofs.Transfer.Shifts

/-!
# `DeskLink.Proofs.Transfer.Progress`: the Bucket is up to date when it says so

Calls of the transfer manager among the steps of a tick. `World.Honest` is what the reports are
worth: each was given when no row of its phone was left, failed exactly if a transfer of the
phone did, and every transfer a sample saw is counted once, as soon as its phone has no row.

A failure is read after the rows, and forgotten at the next sample. One that comes between the
two reads, or of a transfer that no sample saw, is lost (`failure_between_reads_lost`). `Meets`
leaves those out, and what a full queue or a full batch forgets. `bucket_honest`: in every run
whose steps meet it, the reports are honest.
-/

set_option autoImplicit false

namespace DeskLink.Board

open Lib (runFrom StepsMeet)

/-! ### Where a tick is -/

/-- The rows the tick has read. -/
def Tick.readRows : Tick → Option (List TransferRow)
  | .between => none
  | .read rows | .taken rows _ => some rows

/-- The failures the tick has taken. -/
def Tick.failures : Tick → List String
  | .between | .read _ => []
  | .taken _ failed => failed

namespace World

variable {w w' : World} {device id : String} {call : BucketCall} {row : TransferRow}

/-! ### What the reports are worth -/

/-- How often a transfer was counted. -/
def timesCounted (w : World) (id : String) : Nat :=
  (w.given.filter (fun given => given.ids.contains id)).length

/-- The reports so far are right. -/
structure Honest (w : World) : Prop where
  /-- No row of the phone was left. -/
  still : ∀ given ∈ w.given, ∀ row ∈ given.rows, row.deviceId ≠ given.ended.device
  /-- It failed exactly if one of the phone's transfers did since the report before. -/
  failed : ∀ given ∈ w.given, given.ended.failed = given.bad
  /-- It counts transfers of the phone. -/
  owned : ∀ given ∈ w.given, ∀ id ∈ given.ids, w.owner[id]? = some given.ended.device
  files : ∀ given ∈ w.given, given.ended.files = given.ids.length
  /-- What a sample saw is counted once, or its phone still has a row. -/
  once : ∀ id ∈ w.seen, w.timesCounted id = 1 ∨
    w.timesCounted id = 0 ∧ ∃ row ∈ w.tracker.rows, w.owner[id]? = some row.deviceId

/-- The failures of a call are of transfers that the next sample closes. Before the rows are
read these are the ones of the last sample, and once the failures are taken the ones just read.
No failure comes between the two reads. -/
def Timely (w : World) (call : BucketCall) : Prop :=
  match w.tick with
  | .between => ∀ id ∈ w.board.failing call, id ∈ ids w.tracker.rows
  | .read _ => w.board.failing call = []
  | .taken rows _ => ∀ id ∈ w.board.failing call, id ∈ ids rows

/-- The step loses nothing: its failures are timely and have room, and the rows it samples have
room in their batches. -/
def Meets (w : World) : TickStep → Prop
  | .call call => w.Timely call ∧
      w.board.syncedFailed.length + (w.board.failing call).length ≤ maxFinished
  | .read | .take => True
  | .sample => ∀ rows failed, w.tick = .taken rows failed → HasRoom w.tracker.batches rows

instance (w : World) (call : BucketCall) : Decidable (w.Timely call) :=
  match h : w.tick with
  | .between =>
    decidable_of_iff (∀ id ∈ w.board.failing call, id ∈ ids w.tracker.rows) (by rw [Timely, h])
  | .read _ => decidable_of_iff (w.board.failing call = []) (by rw [Timely, h])
  | .taken rows _ =>
    decidable_of_iff (∀ id ∈ w.board.failing call, id ∈ ids rows) (by rw [Timely, h])

instance (w : World) : (tickStep : TickStep) → Decidable (w.Meets tickStep)
  | .call call => inferInstanceAs (Decidable (w.Timely call ∧ _ ≤ maxFinished))
  | .read | .take => .isTrue trivial
  | .sample =>
    match h : w.tick with
    | .between | .read _ => .isTrue (by simp [Meets, h])
    | .taken rows _ => decidable_of_iff (HasRoom w.tracker.batches rows) (by simp [Meets, h])

/-! ### The invariant -/

/-- Where the failures that wait to be taken are, by the tick. -/
def Due (w : World) : Prop :=
  match w.tick with
  | .between => ∀ id ∈ w.board.syncedFailed, id ∈ ids w.tracker.rows
  | .read rows => ∀ id ∈ w.board.syncedFailed, id ∈ ids w.tracker.rows ∧ id ∉ ids rows
  | .taken rows failed => (∀ id ∈ failed, id ∈ ids w.tracker.rows ∧ id ∉ ids rows) ∧
      ∀ id ∈ w.board.syncedFailed, id ∈ ids rows

structure Sound (w : World) : Prop where
  rows : w.board.rows = []
  bounded : w.board.Bounded
  listed : ∀ row ∈ w.board.synced, w.owner[row.id]? = some row.deviceId
  /-- A part is its phone's, and moves while it is listed. -/
  tracked : ∀ (device id : String) (part : Part),
    (parts w.tracker.batches device)[id]? = some part →
      w.owner[id]? = some device ∧ (part.ended = true ↔ id ∉ ids w.tracker.rows)
  moving : ∀ row ∈ w.tracker.rows,
    ∃ part, (parts w.tracker.batches row.deviceId)[row.id]? = some part
  live : ∀ (device : String) (batch : Batch), w.tracker.batches[device]? = some batch →
    ∃ row ∈ w.tracker.rows, row.deviceId = device
  gone : ∀ id ∈ w.board.syncedFailed, id ∉ ids w.board.synced
  owned : ∀ id ∈ w.board.syncedFailed ++ w.tick.failures, w.owner[id]? ≠ none
  due : w.Due
  read : ∀ rows, w.tick.readRows = some rows → ∀ row ∈ rows, w.owner[row.id]? = some row.deviceId
  /-- What is tracked and still listed was read. -/
  kept : ∀ rows, w.tick.readRows = some rows → ∀ (device id : String) (part : Part),
    (parts w.tracker.batches device)[id]? = some part → id ∈ ids w.board.synced → id ∈ ids rows
  bad : ∀ device, w.bad device = true ↔ failedOf w.tracker.batches device = true ∨
    ∃ id ∈ w.board.syncedFailed ++ w.tick.failures, w.owner[id]? = some device
  /-- What was counted does not move again. -/
  counted : ∀ given ∈ w.given, ∀ id ∈ given.ids, w.owner[id]? = some given.ended.device ∧
    id ∉ ids w.board.synced ∧ ∀ rows, w.tick.readRows = some rows → id ∉ ids rows
  uncounted : ∀ (device id : String) (part : Part),
    (parts w.tracker.batches device)[id]? = some part → w.timesCounted id = 0
  once : ∀ id ∈ w.seen, (∀ device, (parts w.tracker.batches device)[id]? = none) →
    w.timesCounted id = 1
  still : ∀ given ∈ w.given, ∀ row ∈ given.rows, row.deviceId ≠ given.ended.device
  failed : ∀ given ∈ w.given, given.ended.failed = given.bad
  files : ∀ given ∈ w.given, given.ended.files = given.ids.length

/-! ### Calls -/

/-- The call is one that may come. -/
def MayCome (w : World) (call : BucketCall) : Prop :=
  ∀ row, call.begun = some row → w.mayBegin row = true

theorem step_call (h : w.step (.call call) = some w') : w' = w.called call ∧ w.MayCome call := by
  cases call with
  | beginSynced row =>
    simp only [step] at h
    split at h
    · rename_i hmay
      refine ⟨(Option.some.inj h).symm, ?_⟩
      intro other heq
      cases heq
      exact hmay
    · cases h
  | progress id done => exact ⟨(Option.some.inj h).symm, nofun⟩
  | finish id outcome => exact ⟨(Option.some.inj h).symm, nofun⟩
  | finishDevice deviceId reason => exact ⟨(Option.some.inj h).symm, nofun⟩
  | discard id => exact ⟨(Option.some.inj h).symm, nofun⟩

/-- An id that was begun is listed when it is begun again, for the same phone. -/
theorem mayBegin_known (h : w.mayBegin row = true) (howner : w.owner[row.id]? = some device) :
    device = row.deviceId ∧ row.id ∈ ids w.board.synced := by
  rw [mayBegin, howner] at h
  simpa using h

/-- The owners after a call. -/
theorem called_owner (w : World) (call : BucketCall) (id : String) :
    (w.called call).owner[id]? =
      match call.begun with
      | some row => if row.id = id then some row.deviceId else w.owner[id]?
      | none => w.owner[id]? := by
  cases call with
  | beginSynced row => exact getElem?_keyInsert _ _ _ _
  | progress id' done => rfl
  | finish id' outcome => rfl
  | finishDevice deviceId reason => rfl
  | discard id' => rfl

/-- A call keeps whose an id is. -/
theorem called_keeps (hmay : w.MayCome call) (h : w.owner[id]? = some device) :
    (w.called call).owner[id]? = some device := by
  rw [called_owner]
  cases hbegun : call.begun with
  | none => exact h
  | some row =>
    simp only
    split
    · rename_i hid
      subst hid
      rw [(mayBegin_known (hmay row hbegun) h).1]
    · exact h

section Call

variable {w : World} (hw : w.Sound) {call : BucketCall} (hmay : w.MayCome call)
variable (hmeets : w.Meets (.call call)) {id : String}
include hw hmeets

/-- The shift of the Bucket's list under a call. -/
theorem called_shifts :
    w.board.Shifts (w.called call).board call.begun (w.board.failing call) :=
  TransferBoard.step_shifts hw.bounded hw.rows hmeets.2

/-- A failure that waits, or that was taken, after a call. -/
theorem mem_called_failures
    (h : id ∈ (w.called call).board.syncedFailed ++ (w.called call).tick.failures) :
    id ∈ w.board.syncedFailed ++ w.tick.failures ∨
      id ∈ w.board.failing call ∧ id ∈ ids w.board.synced := by
  rw [(called_shifts hw hmeets).failed] at h
  rcases List.mem_append.mp h with hleft | hright
  · rcases List.mem_append.mp hleft with hold | hnew
    · exact .inl (List.mem_append_left _ hold)
    · exact .inr ⟨hnew, ((called_shifts hw hmeets).lost id hnew).1⟩
  · exact .inl (List.mem_append_right _ hright)

theorem called_due : (w.called call).Due := by
  have hfailed := (called_shifts hw hmeets).failed
  have hdue := hw.due
  have htimely := hmeets.1
  have htick : (w.called call).tick = w.tick := rfl
  have htracker : (w.called call).tracker = w.tracker := rfl
  unfold Due at hdue ⊢
  rw [htick, htracker, hfailed]
  unfold Timely at htimely
  cases hphase : w.tick with
  | between =>
    rw [hphase] at hdue htimely
    intro id hid
    rcases List.mem_append.mp hid with hold | hnew
    · exact hdue id hold
    · exact htimely id hnew
  | read rows =>
    rw [hphase] at hdue htimely
    simp only at htimely
    intro id hid
    rw [htimely, List.append_nil] at hid
    exact hdue id hid
  | taken rows failed =>
    rw [hphase] at hdue htimely
    refine ⟨hdue.1, ?_⟩
    intro id hid
    rcases List.mem_append.mp hid with hold | hnew
    · exact hdue.2 id hold
    · exact htimely id hnew

include hmay

/-- What is listed after a call is its phone's. -/
theorem called_listed :
    ∀ row ∈ (w.called call).board.synced, (w.called call).owner[row.id]? = some row.deviceId := by
  intro row hrow
  rcases (called_shifts hw hmeets).synced row hrow with hbegun | ⟨old, hold, hid, hdevice⟩
  · rw [called_owner, ← hbegun]
    exact if_pos rfl
  · rw [← hid, ← hdevice]
    exact called_keeps hmay (hw.listed old hold)

/-- What was begun before the call and is listed after it was listed before it. -/
theorem listed_of_called {device : String} (howner : w.owner[id]? = some device)
    (h : id ∈ ids (w.called call).board.synced) : id ∈ ids w.board.synced := by
  obtain ⟨row, hrow, rfl⟩ := mem_ids.mp h
  rcases (called_shifts hw hmeets).synced row hrow with hbegun | ⟨old, hold, hid, _⟩
  · exact (mayBegin_known (hmay row hbegun.symm) howner).2
  · exact hid ▸ mem_ids_of_mem hold

theorem called_owned : ∀ id ∈ (w.called call).board.syncedFailed ++ (w.called call).tick.failures,
    (w.called call).owner[id]? ≠ none := by
  intro id hid
  have howned : w.owner[id]? ≠ none := by
    rcases mem_called_failures hw hmeets hid with hold | ⟨_, hlisted⟩
    · exact hw.owned id hold
    · obtain ⟨row, hrow, rfl⟩ := mem_ids.mp hlisted
      rw [hw.listed row hrow]
      nofun
  obtain ⟨device, hdevice⟩ := Option.ne_none_iff_exists'.mp howned
  rw [called_keeps hmay hdevice]
  nofun

theorem called_gone :
    ∀ id ∈ (w.called call).board.syncedFailed, id ∉ ids (w.called call).board.synced := by
  intro id hid hlisted
  rw [(called_shifts hw hmeets).failed] at hid
  rcases List.mem_append.mp hid with hold | hnew
  · obtain ⟨device, hdevice⟩ := Option.ne_none_iff_exists'.mp
      (hw.owned id (List.mem_append_left _ hold))
    exact hw.gone id hold (listed_of_called hw hmay hmeets hdevice hlisted)
  · exact ((called_shifts hw hmeets).lost id hnew).2 hlisted

/-- Whose failures there are after a call. -/
theorem called_bad (device : String) :
    (w.called call).bad device = true ↔ failedOf w.tracker.batches device = true ∨
      ∃ id ∈ (w.called call).board.syncedFailed ++ (w.called call).tick.failures,
        (w.called call).owner[id]? = some device := by
  have hbad : (w.called call).bad device = true ↔
      w.bad device = true ∨ ∃ id ∈ w.board.failing call, w.owner[id]? = some device := by
    simp [called]
  have hsame : ∀ id : String, w.owner[id]? ≠ none →
      ((w.called call).owner[id]? = some device ↔ w.owner[id]? = some device) := by
    intro id howned
    obtain ⟨other, hother⟩ := Option.ne_none_iff_exists'.mp howned
    rw [called_keeps hmay hother, hother]
  rw [hbad, hw.bad device, or_assoc]
  refine or_congr_right ?_
  constructor
  · rintro (⟨id, hid, howner⟩ | ⟨id, hid, howner⟩)
    · refine ⟨id, ?_, called_keeps hmay howner⟩
      rw [(called_shifts hw hmeets).failed]
      rcases List.mem_append.mp hid with hwait | htaken
      · exact List.mem_append_left _ (List.mem_append_left _ hwait)
      · exact List.mem_append_right _ htaken
    · refine ⟨id, ?_, called_keeps hmay howner⟩
      rw [(called_shifts hw hmeets).failed]
      exact List.mem_append_left _ (List.mem_append_right _ hid)
  · rintro ⟨id, hid, howner⟩
    rcases mem_called_failures hw hmeets hid with hold | ⟨hnew, hlisted⟩
    · exact .inl ⟨id, hold, (hsame id (hw.owned id hold)).mp howner⟩
    · obtain ⟨row, hrow, rfl⟩ := mem_ids.mp hlisted
      have howned : w.owner[row.id]? ≠ none := by
        rw [hw.listed row hrow]
        nofun
      exact .inr ⟨row.id, hnew, (hsame row.id howned).mp howner⟩

theorem called_sound : (w.called call).Sound where
  rows := (called_shifts hw hmeets).rows
  bounded := (called_shifts hw hmeets).bounded
  listed := called_listed hw hmay hmeets
  tracked device id part hpart :=
    ⟨called_keeps hmay (hw.tracked device id part hpart).1, (hw.tracked device id part hpart).2⟩
  moving := hw.moving
  live := hw.live
  gone := called_gone hw hmay hmeets
  owned := called_owned hw hmay hmeets
  due := called_due hw hmeets
  read rows hrows row hrow := called_keeps hmay (hw.read rows hrows row hrow)
  kept rows hrows device id part hpart hlisted :=
    hw.kept rows hrows device id part hpart
      (listed_of_called hw hmay hmeets (hw.tracked device id part hpart).1 hlisted)
  bad := called_bad hw hmay hmeets
  counted given hgiven id hid := by
    obtain ⟨howner, hlisted, hread⟩ := hw.counted given hgiven id hid
    exact ⟨called_keeps hmay howner,
      fun h => hlisted (listed_of_called hw hmay hmeets howner h), hread⟩
  uncounted := hw.uncounted
  once := hw.once
  still := hw.still
  failed := hw.failed
  files := hw.files

end Call

variable {rows : List TransferRow} {failed : List String}

/-! ### The two reads -/

theorem read_sound (hw : w.Sound) (htick : w.tick = .between) :
    { w with tick := .read w.board.synced }.Sound := by
  have hdue := hw.due
  have howned := hw.owned
  have hbad := hw.bad
  unfold Due at hdue
  rw [htick] at hdue howned hbad
  exact {
    rows := hw.rows
    bounded := hw.bounded
    listed := hw.listed
    tracked := hw.tracked
    moving := hw.moving
    live := hw.live
    gone := hw.gone
    owned := howned
    due := fun id hid => ⟨hdue id hid, hw.gone id hid⟩
    read := by
      intro rows hrows row hrow
      cases hrows
      exact hw.listed row hrow
    kept := by
      intro rows hrows device id part _ hlisted
      cases hrows
      exact hlisted
    bad := hbad
    counted := by
      intro given hgiven id hid
      obtain ⟨howner, hlisted, _⟩ := hw.counted given hgiven id hid
      refine ⟨howner, hlisted, ?_⟩
      intro rows hrows
      cases hrows
      exact hlisted
    uncounted := hw.uncounted
    once := hw.once
    still := hw.still
    failed := hw.failed
    files := hw.files }

theorem take_sound (hw : w.Sound) (htick : w.tick = .read rows) : { w with
      board := { w.board with syncedFailed := [] }
      tick := .taken rows w.board.syncedFailed }.Sound := by
  have hdue := hw.due
  have howned := hw.owned
  have hbad := hw.bad
  have hread := hw.read
  have hkept := hw.kept
  have hcounted := hw.counted
  unfold Due at hdue
  simp only [htick, Tick.failures, List.append_nil] at hdue howned hbad
  simp only [htick, Tick.readRows] at hread hkept hcounted
  exact {
    rows := hw.rows
    bounded := ⟨hw.bounded.1, hw.bounded.2, hw.bounded.3, hw.bounded.4⟩
    listed := hw.listed
    tracked := hw.tracked
    moving := hw.moving
    live := hw.live
    gone := fun _ h => absurd h List.not_mem_nil
    owned := howned
    due := ⟨hdue, fun _ h => absurd h List.not_mem_nil⟩
    read := hread
    kept := hkept
    bad := hbad
    counted := hcounted
    uncounted := hw.uncounted
    once := hw.once
    still := hw.still
    failed := hw.failed
    files := hw.files }

/-! ### A sample -/

/-- Every row of the sample is in its phone's closed batch. -/
theorem closed_moving (hroom : HasRoom w.tracker.batches rows) (failed : List String)
    (hrow : row ∈ rows) :
    ∃ part, (parts (w.tracker.closed rows failed) row.deviceId)[row.id]? = some part := by
  obtain ⟨part, hpart, _⟩ := taken_listed hroom hrow
  exact ⟨_, by rw [closed_part, hpart, Option.map_some]⟩

/-- A part that was tracked is in the closed batch. -/
theorem closed_of_tracked (hroom : HasRoom w.tracker.batches rows) (failed : List String)
    {part : Part} (h : (parts w.tracker.batches device)[id]? = some part) :
    ∃ part', (parts (w.tracker.closed rows failed) device)[id]? = some part' := by
  by_cases hrow : ∃ row ∈ rows, row.deviceId = device ∧ row.id = id
  · obtain ⟨row, hrow, rfl, rfl⟩ := hrow
    exact closed_moving hroom failed hrow
  · refine ⟨Part.close rows failed id part, ?_⟩
    rw [closed_part,
      taken_unlisted hroom (fun row hmem hdevice hid => hrow ⟨row, hmem, hdevice, hid⟩), h,
      Option.map_some]

theorem length_filter_one {α : Type} {list : List α} (hnodup : list.Nodup) {p : α → Bool} {a : α}
    (ha : a ∈ list) (hp : p a = true) (honly : ∀ b ∈ list, p b = true → b = a) :
    (list.filter p).length = 1 := by
  classical
  rw [← List.countP_eq_length_filter, ← List.count_eq_one_of_mem hnodup ha, List.count]
  refine List.countP_congr (fun b hb => ?_)
  rw [beq_iff_eq]
  exact ⟨honly b hb, fun heq => heq ▸ hp⟩

theorem sampled_timesCounted (w : World) (rows : List TransferRow) (failed : List String)
    (id : String) :
    (w.sampled rows failed).timesCounted id = w.timesCounted id +
      ((w.tracker.endedBatches rows failed).filter
        (fun entry => entry.2.parts.keys.contains id)).length := by
  rw [timesCounted, sampled, List.filter_append, List.length_append, List.filter_map,
    List.length_map]
  rfl

/-- What no new report counts is counted as often as before. -/
theorem sampled_times_same
    (h : ∀ entry ∈ w.tracker.endedBatches rows failed, id ∉ entry.2.parts.keys) :
    (w.sampled rows failed).timesCounted id = w.timesCounted id := by
  rw [sampled_timesCounted, List.filter_eq_nil_iff.mpr, List.length_nil, Nat.add_zero]
  intro entry hentry
  rw [List.contains_iff_mem]
  exact h entry hentry

/-- A report is an old one, or of a batch that is over. -/
theorem mem_sampled_given {given : Given} (h : given ∈ (w.sampled rows failed).given) :
    given ∈ w.given ∨ ∃ device batch,
      (device, batch) ∈ w.tracker.endedBatches rows failed ∧
        given = { ended := batch.report device, ids := batch.parts.keys, rows,
                  bad := w.bad device } := by
  rcases List.mem_append.mp h with hold | hnew
  · exact .inl hold
  · obtain ⟨⟨device, batch⟩, hentry, rfl⟩ := List.mem_map.mp hnew
    exact .inr ⟨device, batch, hentry, rfl⟩

section Sample

variable {w : World} (hw : w.Sound) {rows : List TransferRow} {failed : List String}
  (htick : w.tick = .taken rows failed) (hroom : HasRoom w.tracker.batches rows)
variable {device id : String} {part : Part} {batch : Batch}
include hw htick

/-- A row of the sample is its phone's. -/
theorem sample_owner {row : TransferRow} (hrow : row ∈ rows) :
    w.owner[row.id]? = some row.deviceId :=
  hw.read rows (by rw [htick]; rfl) row hrow

/-- An id of the sample is in it as a row of its phone. -/
theorem sample_row (howner : w.owner[id]? = some device) (hid : id ∈ ids rows) :
    ∃ row ∈ rows, row.deviceId = device ∧ row.id = id := by
  obtain ⟨row, hrow, rfl⟩ := mem_ids.mp hid
  rw [sample_owner hw htick hrow] at howner
  exact ⟨row, hrow, Option.some.inj howner, rfl⟩

/-- A phone without a row has no failure that waits. -/
theorem no_failure_waits (hnone : ∀ row ∈ rows, row.deviceId ≠ device) :
    ∀ id ∈ w.board.syncedFailed, w.owner[id]? ≠ some device := by
  intro id hid howner
  have hdue := hw.due
  unfold Due at hdue
  rw [htick] at hdue
  obtain ⟨row, hrow, hdevice, _⟩ := sample_row hw htick howner (hdue.2 id hid)
  exact hnone row hrow hdevice

include hroom

/-- What is in a batch once the rows are taken in: a row of the sample, or a part it had. -/
theorem taken_cases (h : (parts (rows.foldl takeRow w.tracker.batches) device)[id]? = some part) :
    w.owner[id]? = some device ∧
      (id ∈ ids rows ∧ part.ended = false ∨
        id ∉ ids rows ∧ (parts w.tracker.batches device)[id]? = some part) := by
  by_cases hrow : ∃ row ∈ rows, row.deviceId = device ∧ row.id = id
  · obtain ⟨row, hrow, rfl, rfl⟩ := hrow
    obtain ⟨moving, hmoving, hended⟩ := taken_listed hroom hrow
    rw [hmoving] at h
    cases h
    exact ⟨sample_owner hw htick hrow, .inl ⟨mem_ids_of_mem hrow, hended⟩⟩
  · rw [taken_unlisted hroom (fun row hmem hdevice hid => hrow ⟨row, hmem, hdevice, hid⟩)] at h
    have howner := (hw.tracked device id part h).1
    exact ⟨howner, .inr ⟨fun hid => hrow (sample_row hw htick howner hid), h⟩⟩

/-- A part of a closed batch is its phone's, and moves while it is a row of the sample. -/
theorem closed_tracked (h : (parts (w.tracker.closed rows failed) device)[id]? = some part) :
    w.owner[id]? = some device ∧ (part.ended = true ↔ id ∉ ids rows) := by
  rw [closed_part, Option.map_eq_some_iff] at h
  obtain ⟨before, hbefore, rfl⟩ := h
  obtain ⟨howner, hcase⟩ := taken_cases hw htick hroom hbefore
  refine ⟨howner, ?_⟩
  rw [close_ended, any_id]
  rcases hcase with ⟨hin, hended⟩ | ⟨hout, _⟩
  · simp [hin, hended]
  · simp [hout]

/-- A batch is over exactly if the sample has no row of its phone. -/
theorem closed_over (h : (w.tracker.closed rows failed)[device]? = some batch) :
    batch.allEnded = true ↔ ∀ row ∈ rows, row.deviceId ≠ device := by
  rw [allEnded_iff]
  constructor
  · rintro hall row hrow rfl
    obtain ⟨part, hpart⟩ := closed_moving hroom failed hrow
    have hended := (closed_tracked hw htick hroom hpart).2
    rw [parts_of_getElem? h] at hpart
    exact hended.mp (hall row.id part hpart) (mem_ids_of_mem hrow)
  · intro hnone id part hpart
    rw [← parts_of_getElem? h] at hpart
    obtain ⟨howner, hended⟩ := closed_tracked hw htick hroom hpart
    refine hended.mpr (fun hid => ?_)
    obtain ⟨row, hrow, hdevice, _⟩ := sample_row hw htick howner hid
    exact hnone row hrow hdevice

/-- A closed batch failed if it had failed, or one of its phone's failures was taken. -/
theorem closed_bad (device : String) :
    failedOf (w.tracker.closed rows failed) device = true ↔
      failedOf w.tracker.batches device = true ∨
        ∃ id ∈ failed, w.owner[id]? = some device := by
  rw [closed_failed]
  refine or_congr_right ?_
  constructor
  · rintro ⟨id, part, hpart, hfails⟩
    simp only [Part.fails, Bool.and_eq_true, List.contains_iff_mem] at hfails
    exact ⟨id, hfails.2, (taken_cases hw htick hroom hpart).1⟩
  · rintro ⟨id, hid, howner⟩
    -- The failure is of a row of the sample before, which this one does not have.
    have hdue := hw.due
    unfold Due at hdue
    rw [htick] at hdue
    obtain ⟨hknown, hout⟩ := hdue.1 id hid
    obtain ⟨row, hrow, rfl⟩ := mem_ids.mp hknown
    obtain ⟨part, hpart⟩ := hw.moving row hrow
    obtain ⟨howner', hended⟩ := hw.tracked _ _ _ hpart
    rw [howner', Option.some.injEq] at howner
    subst howner
    refine ⟨row.id, part, ?_, ?_⟩
    · rw [taken_unlisted hroom fun other hother _ (heq : other.id = row.id) =>
        hout (heq ▸ mem_ids_of_mem hother)]
      exact hpart
    · have hmoves : part.ended = false := by
        rw [← Bool.not_eq_true, hended]
        exact not_not.mpr hknown
      simp [Part.fails, hmoves, hout, hid]

/-- A batch is left exactly if the sample has a row of its phone. -/
theorem sampled_some : (w.tracker.sample rows failed).1.batches[device]? = some batch ↔
      (w.tracker.closed rows failed)[device]? = some batch ∧
        ∃ row ∈ rows, row.deviceId = device := by
  rw [sampled_batch, Option.filter_eq_some_iff]
  refine and_congr_right fun hbatch => ?_
  rw [Bool.not_eq_true', ← Bool.not_eq_true, closed_over hw htick hroom hbatch]
  push Not
  rfl

/-- The batches that are left have the parts of the closed ones. -/
theorem sampled_part : (parts (w.tracker.sample rows failed).1.batches device)[id]? = some part ↔
      (parts (w.tracker.closed rows failed) device)[id]? = some part ∧
        ∃ row ∈ rows, row.deviceId = device := by
  constructor
  · intro hpart
    obtain ⟨batch, hbatch, hin⟩ := batch_of_part hpart
    obtain ⟨hclosed, hrow⟩ := (sampled_some hw htick hroom).mp hbatch
    rw [parts_of_getElem? hclosed]
    exact ⟨hin, hrow⟩
  · rintro ⟨hpart, hrow⟩
    obtain ⟨batch, hbatch, hin⟩ := batch_of_part hpart
    rw [parts_of_getElem? ((sampled_some hw htick hroom).mpr ⟨hbatch, hrow⟩)]
    exact hin

theorem sampled_failed : failedOf (w.tracker.sample rows failed).1.batches device = true ↔
      failedOf (w.tracker.closed rows failed) device = true ∧
        ∃ row ∈ rows, row.deviceId = device := by
  constructor
  · intro hfailed
    obtain ⟨batch, hbatch⟩ := batch_of_failed hfailed
    obtain ⟨hclosed, hrow⟩ := (sampled_some hw htick hroom).mp hbatch
    rw [failedOf_of_getElem? hbatch] at hfailed
    rw [failedOf_of_getElem? hclosed]
    exact ⟨hfailed, hrow⟩
  · rintro ⟨hfailed, hrow⟩
    obtain ⟨batch, hbatch⟩ := batch_of_failed hfailed
    rw [failedOf_of_getElem? hbatch] at hfailed
    rw [failedOf_of_getElem? ((sampled_some hw htick hroom).mpr ⟨hbatch, hrow⟩)]
    exact hfailed

/-- The batches that are over are those of a phone without a row. -/
theorem mem_ended : (device, batch) ∈ w.tracker.endedBatches rows failed ↔
      (w.tracker.closed rows failed)[device]? = some batch ∧
        ∀ row ∈ rows, row.deviceId ≠ device := by
  rw [mem_endedBatches]
  exact and_congr_right fun hbatch => closed_over hw htick hroom hbatch

/-- What went wrong for a phone without a row is what its closed batch says. -/
theorem bad_of_over (hnone : ∀ row ∈ rows, row.deviceId ≠ device) :
    w.bad device = failedOf (w.tracker.closed rows failed) device := by
  rw [Bool.eq_iff_iff, hw.bad device, closed_bad hw htick hroom device, htick]
  refine or_congr_right ?_
  constructor
  · rintro ⟨id, hid, howner⟩
    rcases List.mem_append.mp hid with hwait | htaken
    · exact absurd howner (no_failure_waits hw htick hnone id hwait)
    · exact ⟨id, htaken, howner⟩
  · rintro ⟨id, hid, howner⟩
    exact ⟨id, List.mem_append_right _ hid, howner⟩

theorem sampled_bad (device : String) :
    (w.sampled rows failed).bad device = true ↔
      failedOf (w.sampled rows failed).tracker.batches device = true ∨
        ∃ id ∈ w.board.syncedFailed ++ [], w.owner[id]? = some device := by
  have hbad : (w.sampled rows failed).bad device = true ↔
      (∀ entry ∈ w.tracker.endedBatches rows failed, entry.1 ≠ device) ∧
        w.bad device = true := by
    simp [sampled]
  have hfailed : failedOf (w.sampled rows failed).tracker.batches device = true ↔ _ :=
    sampled_failed hw htick hroom
  rw [hbad, hfailed, List.append_nil]
  by_cases hrow : ∃ row ∈ rows, row.deviceId = device
  · have hnot : ∀ entry ∈ w.tracker.endedBatches rows failed, entry.1 ≠ device := by
      rintro ⟨other, batch⟩ hentry rfl
      obtain ⟨row, hrow, hdevice⟩ := hrow
      exact ((mem_ended hw htick hroom).mp hentry).2 row hrow hdevice
    rw [and_iff_right hnot, and_iff_left hrow, hw.bad device, closed_bad hw htick hroom device,
      htick]
    constructor
    · rintro (hbefore | ⟨id, hid, howner⟩)
      · exact .inl (.inl hbefore)
      · rcases List.mem_append.mp hid with hwait | htaken
        · exact .inr ⟨id, hwait, howner⟩
        · exact .inl (.inr ⟨id, htaken, howner⟩)
    · rintro ((hbefore | ⟨id, hid, howner⟩) | ⟨id, hid, howner⟩)
      · exact .inl hbefore
      · exact .inr ⟨id, List.mem_append_right _ hid, howner⟩
      · exact .inr ⟨id, List.mem_append_left _ hid, howner⟩
  · have hnone : ∀ row ∈ rows, row.deviceId ≠ device :=
      fun row hmem hdevice => hrow ⟨row, hmem, hdevice⟩
    constructor
    · rintro ⟨hnot, hbad⟩
      rw [bad_of_over hw htick hroom hnone] at hbad
      obtain ⟨batch, hbatch⟩ := batch_of_failed hbad
      exact absurd rfl (hnot (device, batch) ((mem_ended hw htick hroom).mpr ⟨hbatch, hnone⟩))
    · rintro (⟨_, hrow'⟩ | ⟨id, hid, howner⟩)
      · exact absurd hrow' hrow
      · exact absurd howner (no_failure_waits hw htick hnone id hid)

/-- What a new report counts was tracked, is no row of the sample, and is not listed. -/
theorem ended_part (hentry : (device, batch) ∈ w.tracker.endedBatches rows failed)
    (hid : id ∈ batch.parts.keys) : (∃ part, (parts w.tracker.batches device)[id]? = some part) ∧
      w.owner[id]? = some device ∧ id ∉ ids rows ∧ id ∉ ids w.board.synced := by
  obtain ⟨hbatch, hnone⟩ := (mem_ended hw htick hroom).mp hentry
  obtain ⟨part, hpart⟩ : ∃ part, batch.parts[id]? = some part := by
    rw [Std.ExtTreeMap.mem_keys] at hid
    exact ⟨_, Std.ExtTreeMap.getElem?_eq_some_getElem hid⟩
  rw [← parts_of_getElem? hbatch, closed_part, Option.map_eq_some_iff] at hpart
  obtain ⟨before, hbefore, _⟩ := hpart
  obtain ⟨howner, ⟨hin, _⟩ | ⟨hout, htracked⟩⟩ := taken_cases hw htick hroom hbefore
  · obtain ⟨row, hrow, hdevice, _⟩ := sample_row hw htick howner hin
    exact absurd hdevice (hnone row hrow)
  · refine ⟨⟨before, htracked⟩, howner, hout, fun hlisted => hout ?_⟩
    exact hw.kept rows (by rw [htick]; rfl) device id before htracked hlisted

/-- What ends is counted once more. -/
theorem sampled_times_ended (hpart : (parts (w.tracker.closed rows failed) device)[id]? = some part)
    (hnone : ∀ row ∈ rows, row.deviceId ≠ device) :
    (w.sampled rows failed).timesCounted id = w.timesCounted id + 1 := by
  obtain ⟨batch, hbatch, hin⟩ := batch_of_part hpart
  have hentry := (mem_ended hw htick hroom).mpr ⟨hbatch, hnone⟩
  have hid : id ∈ batch.parts.keys := by
    rw [Std.ExtTreeMap.mem_keys, Std.ExtTreeMap.mem_iff_isSome_getElem?, hin]
    rfl
  have hcontains : batch.parts.keys.contains id = true := List.contains_iff_mem.mpr hid
  rw [sampled_timesCounted,
    length_filter_one (p := fun entry => entry.2.parts.keys.contains id)
      (nodup_endedBatches w.tracker rows failed) hentry hcontains]
  -- The owner of the id says which batch it is.
  rintro ⟨other, batch'⟩ hentry' hid'
  have howner := (ended_part hw htick hroom hentry hid).2.1
  rw [(ended_part hw htick hroom hentry' (List.contains_iff_mem.mp hid')).2.1,
    Option.some.injEq] at howner
  subst howner
  have hbatch' := ((mem_ended hw htick hroom).mp hentry').1
  rw [hbatch, Option.some.injEq] at hbatch'
  rw [hbatch']

theorem sampled_uncounted
    (hpart : (parts (w.sampled rows failed).tracker.batches device)[id]? = some part) :
    (w.sampled rows failed).timesCounted id = 0 := by
  obtain ⟨hclosed, row, hrow, hdevice⟩ := (sampled_part hw htick hroom).mp hpart
  have howner := (closed_tracked hw htick hroom hclosed).1
  rw [sampled_times_same]
  · rw [closed_part, Option.map_eq_some_iff] at hclosed
    obtain ⟨before, hbefore, _⟩ := hclosed
    obtain ⟨_, ⟨hin, _⟩ | ⟨_, htracked⟩⟩ := taken_cases hw htick hroom hbefore
    · rw [timesCounted, List.filter_eq_nil_iff.mpr, List.length_nil]
      intro given hgiven hid
      exact (hw.counted given hgiven id (List.contains_iff_mem.mp hid)).2.2 rows
        (by rw [htick]; rfl) hin
    · exact hw.uncounted device id before htracked
  · rintro ⟨other, batch⟩ hentry hid
    have howner' := (ended_part hw htick hroom hentry hid).2.1
    rw [howner, Option.some.injEq] at howner'
    exact ((mem_ended hw htick hroom).mp hentry).2 row hrow (hdevice.trans howner')

/-- What was seen and is in no batch was counted once. -/
theorem sampled_once (hseen : id ∈ (w.sampled rows failed).seen) (hnone : ∀ device : String,
      (parts (w.sampled rows failed).tracker.batches device)[id]? = none) :
    (w.sampled rows failed).timesCounted id = 1 := by
  by_cases hclosed : ∃ (device : String) (part : Part),
      (parts (w.tracker.closed rows failed) device)[id]? = some part
  · obtain ⟨device, part, hpart⟩ := hclosed
    have hover : ∀ row ∈ rows, row.deviceId ≠ device := by
      intro row hrow hdevice
      have hleft := (sampled_part hw htick hroom).mpr ⟨hpart, row, hrow, hdevice⟩
      have hgone : (parts (w.tracker.sample rows failed).1.batches device)[id]? = none :=
        hnone device
      rw [hgone] at hleft
      cases hleft
    rw [sampled_times_ended hw htick hroom hpart hover]
    have hid : ∃ batch, (device, batch) ∈ w.tracker.endedBatches rows failed ∧
        id ∈ batch.parts.keys := by
      obtain ⟨batch, hbatch, hin⟩ := batch_of_part hpart
      refine ⟨batch, (mem_ended hw htick hroom).mpr ⟨hbatch, hover⟩, ?_⟩
      rw [Std.ExtTreeMap.mem_keys, Std.ExtTreeMap.mem_iff_isSome_getElem?, hin]
      rfl
    obtain ⟨batch, hentry, hin⟩ := hid
    obtain ⟨⟨before, hbefore⟩, _⟩ := ended_part hw htick hroom hentry hin
    rw [hw.uncounted device id before hbefore]
  · -- It was counted before, and is in no batch that ends.
    have hout : id ∉ ids rows := by
      intro hin
      obtain ⟨row, hrow, rfl⟩ := mem_ids.mp hin
      obtain ⟨part, hpart⟩ := closed_moving hroom failed hrow
      exact hclosed ⟨row.deviceId, part, hpart⟩
    have hbefore : id ∈ w.seen := by
      rcases List.mem_append.mp hseen with hold | hnew
      · exact hold
      · exact absurd hnew hout
    have huntracked : ∀ device : String, (parts w.tracker.batches device)[id]? = none := by
      intro device
      rw [Option.eq_none_iff_forall_ne_some]
      intro part hpart
      obtain ⟨part', hpart'⟩ := closed_of_tracked hroom failed hpart
      exact hclosed ⟨device, part', hpart'⟩
    rw [sampled_times_same, hw.once id hbefore huntracked]
    rintro ⟨device, batch⟩ hentry hid
    obtain ⟨⟨part, hpart⟩, _⟩ := ended_part hw htick hroom hentry hid
    rw [huntracked device] at hpart
    cases hpart

theorem sampled_sound : (w.sampled rows failed).Sound where
  rows := hw.rows
  bounded := hw.bounded
  listed := hw.listed
  tracked device id part hpart :=
    closed_tracked hw htick hroom ((sampled_part hw htick hroom).mp hpart).1
  moving row hrow := by
    obtain ⟨part, hpart⟩ := closed_moving hroom failed hrow
    exact ⟨part, (sampled_part hw htick hroom).mpr ⟨hpart, row, hrow, rfl⟩⟩
  live device batch hbatch := ((sampled_some hw htick hroom).mp hbatch).2
  gone := hw.gone
  owned id hid := by
    rcases List.mem_append.mp hid with hwait | htaken
    · exact hw.owned id (List.mem_append_left _ hwait)
    · cases htaken
  due := by
    have hdue := hw.due
    unfold Due at hdue
    rw [htick] at hdue
    exact hdue.2
  read _ hrows := nomatch hrows
  kept _ hrows := nomatch hrows
  bad := sampled_bad hw htick hroom
  counted given hgiven id hid := by
    rcases mem_sampled_given hgiven with hold | ⟨device, batch, hentry, rfl⟩
    · obtain ⟨howner, hlisted, _⟩ := hw.counted given hold id hid
      exact ⟨howner, hlisted, nofun⟩
    · obtain ⟨_, howner, _, hlisted⟩ := ended_part hw htick hroom hentry hid
      exact ⟨howner, hlisted, nofun⟩
  uncounted _ _ _ hpart := sampled_uncounted hw htick hroom hpart
  once _ hseen hnone := sampled_once hw htick hroom hseen hnone
  still given hgiven row hrow := by
    rcases mem_sampled_given hgiven with hold | ⟨device, batch, hentry, rfl⟩
    · exact hw.still given hold row hrow
    · exact ((mem_ended hw htick hroom).mp hentry).2 row hrow
  failed given hgiven := by
    rcases mem_sampled_given hgiven with hold | ⟨device, batch, hentry, rfl⟩
    · exact hw.failed given hold
    · obtain ⟨hbatch, hnone⟩ := (mem_ended hw htick hroom).mp hentry
      show batch.failed = w.bad device
      rw [bad_of_over hw htick hroom hnone, failedOf_of_getElem? hbatch]
  files given hgiven := by
    rcases mem_sampled_given hgiven with hold | ⟨device, batch, hentry, rfl⟩
    · exact hw.files given hold
    · exact Std.ExtTreeMap.length_keys.symm

end Sample

/-! ### Every run -/

theorem sound_init : Sound {} where
  rows := rfl
  bounded := ⟨Nat.zero_le _, Nat.zero_le _, List.nodup_nil, List.nodup_nil⟩
  listed _ h := nomatch h
  tracked device id part hpart := by simp [parts] at hpart
  moving _ h := nomatch h
  live device batch hbatch := by simp at hbatch
  gone _ h := nomatch h
  owned _ h := nomatch h
  due _ h := nomatch h
  read _ h := nomatch h
  kept _ h := nomatch h
  bad device := by simp [failedOf, Tick.failures]
  counted _ h := nomatch h
  uncounted _ _ _ _ := rfl
  once _ h := nomatch h
  still _ h := nomatch h
  failed _ h := nomatch h
  files _ h := nomatch h

/-- A step that loses nothing keeps the invariant. -/
theorem step_sound {tickStep : TickStep} (hw : w.Sound) (hmeets : w.Meets tickStep)
    (hstep : w.step tickStep = some w') : w'.Sound := by
  cases tickStep with
  | call call =>
    obtain ⟨rfl, hmay⟩ := step_call hstep
    exact called_sound hw hmay hmeets
  | read =>
    simp only [step] at hstep
    split at hstep
    · rename_i htick
      cases hstep
      exact read_sound hw htick
    · cases hstep
    · cases hstep
  | take =>
    simp only [step] at hstep
    split at hstep
    · rename_i rows htick
      cases hstep
      exact take_sound hw htick
    · cases hstep
    · cases hstep
  | sample =>
    simp only [step] at hstep
    split at hstep
    · rename_i rows failed htick
      cases hstep
      exact sampled_sound hw htick (hmeets rows failed htick)
    · cases hstep
    · cases hstep

/-- Under the invariant the reports are honest. -/
theorem Sound.honest (hw : w.Sound) : w.Honest where
  still := hw.still
  failed := hw.failed
  owned given hgiven id hid := (hw.counted given hgiven id hid).1
  files := hw.files
  once id hseen := by
    by_cases htracked : ∃ (device : String) (part : Part),
        (parts w.tracker.batches device)[id]? = some part
    · obtain ⟨device, part, hpart⟩ := htracked
      obtain ⟨batch, hbatch, _⟩ := batch_of_part hpart
      obtain ⟨row, hrow, hdevice⟩ := hw.live device batch hbatch
      exact .inr ⟨hw.uncounted device id part hpart, row, hrow,
        hdevice ▸ (hw.tracked device id part hpart).1⟩
    · refine .inl (hw.once id hseen fun device => ?_)
      rw [Option.eq_none_iff_forall_ne_some]
      exact fun part hpart => htracked ⟨device, part, hpart⟩

end World

/-- In every run that loses no failure and no row, the Bucket is called up to date only when it
is. -/
theorem bucket_honest {steps : List TickStep} {w : World}
    (hmeets : StepsMeet World.step World.Meets {} steps)
    (hrun : runFrom World.step {} steps = some w) : w.Honest :=
  (Lib.runFrom_invariant_of_steps (fun _ _ _ h hmeets hstep => World.step_sound h hmeets hstep)
    World.sound_init hmeets hrun).honest

/-- A Bucket file, as it starts to move. -/
def sampleRow : TransferRow :=
  { id := "a", deviceId := "phone", name := "A/f.mov", incoming := true, done := 0, total := 9,
    preparing := false, paused := false }

/-- A tick without a call. -/
def wholeTick : List TickStep := [.read, .take, .sample]

/-- A failure between two ticks. -/
def failsBetween : List TickStep :=
  .call (.beginSynced sampleRow) :: wholeTick
    ++ .call (.finish "a" (.failed "gone")) :: wholeTick

/-- The failure is in the one notice that is given. -/
theorem bucket_honest_between : ∃ w, runFrom World.step {} failsBetween = some w ∧
    w.given.map (fun given => (given.ended.failed, given.bad)) = [(true, true)] ∧ w.Honest := by
  have hany : (runFrom World.step {} failsBetween).any (fun w =>
      w.given.map (fun given => (given.ended.failed, given.bad)) = [(true, true)]) = true := by
    decide +kernel
  obtain ⟨w, hrun, hgiven⟩ := (Option.any_eq_true _ _).mp hany
  exact ⟨w, hrun, of_decide_eq_true hgiven, bucket_honest (by decide +kernel) hrun⟩

/-- The same failure between the two reads of a tick. -/
def failsInside : List TickStep :=
  TickStep.call (.beginSynced sampleRow) :: wholeTick
    ++ [TickStep.read, .call (.finish "a" (.failed "gone")), .take, .sample] ++ wholeTick

/-- It is lost: the Bucket is called up to date. -/
theorem failure_between_reads_lost : ∃ w, runFrom World.step {} failsInside = some w ∧
    ¬∀ given ∈ w.given, given.ended.failed = given.bad := by
  have hany : (runFrom World.step {} failsInside).any (fun w =>
      !w.given.all (fun given => given.ended.failed == given.bad)) = true := by
    decide +kernel
  obtain ⟨w, hrun, hgiven⟩ := (Option.any_eq_true _ _).mp hany
  refine ⟨w, hrun, fun h => ?_⟩
  rw [Bool.not_eq_true', ← Bool.not_eq_true, List.all_eq_true] at hgiven
  exact hgiven (fun given hmem => beq_iff_eq.mpr (h given hmem))

end DeskLink.Board
