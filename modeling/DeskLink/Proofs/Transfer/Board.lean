import DeskLink.Transfer.Board

/-!
# `DeskLink.Proofs.Transfer.Board`: the transfer board stays consistent

`TransferBoard.Bounded` bounds both lists and says that no id is listed twice in
one, and `Accounted` says how a row leaves a list and what is reported of it.
Both hold after every call (`step_bounded`, `step_accounted`).

`TransferBoard.Listed` says that whatever has a note or a lane is listed. Two
calls can break it: `begin` drops a placeholder together with neither, and
`begin_synced` forgets the note of the row it supersedes. `Tidy` says of a call
that it does neither, and `step_listed_iff` that `Listed` stays exactly then.
`board_consistent` is the result for every sequence of calls, and `note_outlives`
a sequence that leaves a note behind.
-/

set_option autoImplicit false

namespace DeskLink.Board

variable {rows : List TransferRow} {id : String} {α : Type} {limit : Nat}

/-! ### Rows by id -/

def ids (rows : List TransferRow) : List String := rows.map (·.id)

@[simp] theorem ids_append (a b : List TransferRow) : ids (a ++ b) = ids a ++ ids b :=
  List.map_append

@[simp] theorem ids_cons (row : TransferRow) (rows : List TransferRow) :
    ids (row :: rows) = row.id :: ids rows := rfl

@[simp] theorem ids_nil : ids [] = [] := rfl

theorem mem_ids_of_mem {row : TransferRow} (h : row ∈ rows) : row.id ∈ ids rows :=
  List.mem_map_of_mem h

theorem mem_ids : id ∈ ids rows ↔ ∃ row ∈ rows, row.id = id := by
  simp [ids]

@[simp] theorem any_id (rows : List TransferRow) (id : String) :
    (rows.any (·.id = id)) = decide (id ∈ ids rows) := by
  rw [Bool.eq_iff_iff]
  simp [mem_ids]

theorem eq_of_id_eq (h : (ids rows).Nodup) {a b : TransferRow} (ha : a ∈ rows) (hb : b ∈ rows)
    (heq : a.id = b.id) : a = b :=
  List.inj_on_of_nodup_map h ha hb heq

theorem nodup_ids_filter (h : (ids rows).Nodup) (keep : TransferRow → Bool) :
    (ids (rows.filter keep)).Nodup :=
  h.sublist (List.filter_sublist.map _)

theorem mem_ids_filter_ne {a : String} :
    a ∈ ids (rows.filter (·.id ≠ id)) ↔ a ≠ id ∧ a ∈ ids rows := by
  simp only [mem_ids, List.mem_filter, decide_eq_true_eq]
  constructor
  · rintro ⟨row, ⟨hrow, hne⟩, rfl⟩
    exact ⟨hne, row, hrow, rfl⟩
  · rintro ⟨hne, row, hrow, rfl⟩
    exact ⟨row, ⟨hrow, hne⟩, rfl⟩

/-- Changing a row without changing its id leaves the ids as they are. -/
theorem ids_updateFirst {f : TransferRow → TransferRow}
    (hf : ∀ row : TransferRow, row.id = id → (f row).id = id) (rows : List TransferRow) :
    ids (updateFirst id f rows) = ids rows := by
  induction rows with
  | nil => rfl
  | cons row rows ih =>
    by_cases h : row.id = id
    · simp [updateFirst, h, hf row h]
    · simp [updateFirst, h, ih]

/-- Removing the first row of a kind is removing the row of its id. -/
theorem eraseP_eq_filter (h : (ids rows).Nodup) {kind : TransferRow → Bool} {first : TransferRow}
    (hfind : rows.find? kind = some first) : rows.eraseP kind = rows.filter (·.id ≠ first.id) := by
  induction rows with
  | nil => cases hfind
  | cons row rows ih =>
    have hnew : row.id ∉ ids rows := (List.nodup_cons.mp h).1
    have hrest : (ids rows).Nodup := (List.nodup_cons.mp h).2
    cases hkind : kind row with
    | true =>
      rw [List.find?_cons_of_pos hkind, Option.some.injEq] at hfind
      subst first
      rw [List.eraseP_cons_of_pos hkind]
      have hall : rows.filter (·.id ≠ row.id) = rows := by
        rw [List.filter_eq_self]
        intro other hother
        have : other.id ≠ row.id := fun heq => hnew (heq ▸ mem_ids_of_mem hother)
        simpa using this
      rw [List.filter_cons_of_neg (by simp), hall]
    | false =>
      rw [List.find?_cons_of_neg (by simp [hkind])] at hfind
      rw [List.eraseP_cons_of_neg (by simp [hkind]), ih hrest hfind]
      have hne : row.id ≠ first.id := by
        intro heq
        rw [heq] at hnew
        exact hnew (mem_ids_of_mem (List.mem_of_find?_eq_some hfind))
      rw [List.filter_cons_of_pos (by simpa using hne)]

/-! ### Queues that keep the latest -/

/-- The last `limit` items. -/
def latest {α : Type} (limit : Nat) (items : List α) : List α := items.drop (items.length - limit)

theorem latest_of_le {items : List α} (h : items.length ≤ limit) : latest limit items = items := by
  have hzero : items.length - limit = 0 := by omega
  rw [latest, hzero, List.drop_zero]

theorem length_latest (limit : Nat) (items : List α) : (latest limit items).length ≤ limit := by
  simp only [latest, List.length_drop]
  omega

theorem latest_append (limit : Nat) (items more : List α) :
    latest limit (latest limit items ++ more) = latest limit (items ++ more) := by
  have hlen : items.length - limit ≤ items.length := Nat.sub_le _ _
  unfold latest
  rw [← List.drop_append_of_le_length hlen, List.drop_drop]
  congr 1
  simp only [List.length_drop, List.length_append]
  omega

theorem pushCapped_eq_latest {queue : List α} (item : α) (hlimit : 0 < limit)
    (h : queue.length ≤ limit) : pushCapped limit queue item = latest limit (queue ++ [item]) := by
  unfold pushCapped
  by_cases hfull : limit ≤ queue.length
  · have hone : queue.length + 1 - limit = 1 := by omega
    rw [if_pos hfull, latest, List.length_append, List.length_singleton, hone,
      List.drop_append_of_le_length (by omega)]
  · rw [if_neg hfull, latest_of_le (by simp only [List.length_append, List.length_singleton]; omega)]

/-! ### What is reported -/

/-- Outcomes under the numbers after `seq`. -/
def numbered (seq : Nat) : List Finished → List (Nat × Finished)
  | [] => []
  | item :: items => (seq + 1, item) :: numbered (seq + 1) items

theorem length_numbered (seq : Nat) (items : List Finished) :
    (numbered seq items).length = items.length := by
  induction items generalizing seq with
  | nil => rfl
  | cons item items ih => simp [numbered, ih]

theorem numbered_append (seq : Nat) (items more : List Finished) :
    numbered seq (items ++ more) = numbered seq items ++ numbered (seq + items.length) more := by
  induction items generalizing seq with
  | nil => simp [numbered]
  | cons item items ih =>
    have harith : seq + 1 + items.length = seq + (items.length + 1) := by omega
    simp [numbered, ih, harith]

theorem numbered_fst {seq : Nat} {items : List Finished} {entry : Nat × Finished}
    (h : entry ∈ numbered seq items) : seq < entry.1 ∧ entry.1 ≤ seq + items.length := by
  induction items generalizing seq with
  | nil => cases h
  | cons item items ih =>
    simp only [List.length_cons]
    rcases List.mem_cons.mp h with rfl | h
    · simp
    · have := ih h
      omega

theorem map_snd_numbered (seq : Nat) (items : List Finished) :
    (numbered seq items).map (·.2) = items := by
  induction items generalizing seq with
  | nil => rfl
  | cons item items ih => simp [numbered, ih]

namespace TransferBoard

variable {after before board : TransferBoard} {id a : String} {row : TransferRow}
variable {rows : List TransferRow} {news : List Finished} {outcome : Outcome} {m : KeyMap String}

/-- The outcomes are numbered up to `endedSeq`, and both queues are bounded. -/
structure Numbered (board : TransferBoard) : Prop where
  upTo : ∀ entry ∈ board.ended, entry.1 ≤ board.endedSeq
  ended : board.ended.length ≤ 64
  finished : board.finished.length ≤ maxFinished

/-- `news` is what `after` reports over `before`. -/
structure Reports (before after : TransferBoard) (news : List Finished) : Prop where
  seq : after.endedSeq = before.endedSeq + news.length
  ended : after.ended = latest 64 (before.ended ++ numbered before.endedSeq news)
  finished : after.finished = latest maxFinished (before.finished ++ news)

/-- The three fields are the same: nothing was reported. -/
theorem Reports.none (hb : before.Numbered) (hseq : after.endedSeq = before.endedSeq)
    (hended : after.ended = before.ended) (hfinished : after.finished = before.finished) :
    Reports before after [] where
  seq := by simp [hseq]
  ended := by simp [hended, numbered, latest_of_le hb.ended]
  finished := by simp [hfinished, latest_of_le hb.finished]

theorem Reports.trans {a b c : TransferBoard} {first second : List Finished}
    (hab : Reports a b first) (hbc : Reports b c second) : Reports a c (first ++ second) where
  seq := by rw [hbc.seq, hab.seq, List.length_append]; omega
  ended := by
    rw [hbc.ended, hab.ended, hab.seq, latest_append, numbered_append, List.append_assoc]
  finished := by
    rw [hbc.finished, hab.finished, latest_append, List.append_assoc]

theorem Reports.numbered (h : Reports before after news) (hb : before.Numbered) :
    after.Numbered where
  upTo := by
    intro entry hentry
    rw [h.ended] at hentry
    rw [h.seq]
    rcases List.mem_append.mp (List.mem_of_mem_drop hentry) with hold | hnew
    · have := hb.upTo entry hold
      omega
    · exact (numbered_fst hnew).2
  ended := by rw [h.ended]; exact length_latest _ _
  finished := by rw [h.finished]; exact length_latest _ _

/-- No more than the queue holds was reported, so all of it can be read. -/
theorem Reports.endedSince (h : Reports before after news) (hb : before.Numbered)
    (hnews : news.length ≤ 64) : after.endedSince before.endedSeq = news := by
  -- Only entries from before are dropped.
  have hsplit : after.ended = before.ended.drop (before.ended.length + news.length - 64)
      ++ DeskLink.Board.numbered before.endedSeq news := by
    rw [h.ended, latest, List.length_append, length_numbered]
    exact List.drop_append_of_le_length (by omega)
  have hold : (before.ended.drop (before.ended.length + news.length - 64)).filter
      (fun item => before.endedSeq < item.1) = [] := by
    rw [List.filter_eq_nil_iff]
    intro entry hentry
    have := hb.upTo entry (List.mem_of_mem_drop hentry)
    simpa using this
  have hnew : (DeskLink.Board.numbered before.endedSeq news).filter
      (fun item => before.endedSeq < item.1) = DeskLink.Board.numbered before.endedSeq news := by
    rw [List.filter_eq_self]
    intro entry hentry
    simpa using (numbered_fst hentry).1
  rw [TransferBoard.endedSince, hsplit, List.filter_append, hold, hnew, List.nil_append,
    map_snd_numbered]

theorem pushFinished_reports (hb : before.Numbered) (hseq : board.endedSeq = before.endedSeq)
    (hended : board.ended = before.ended) (hfinished : board.finished = before.finished)
    (item : Finished) : Reports before (board.pushFinished item) [item] where
  seq := by simp [pushFinished, hseq]
  ended := by
    simp only [pushFinished, hseq, hended, DeskLink.Board.numbered]
    exact pushCapped_eq_latest _ (by decide) hb.ended
  finished := by
    simp only [pushFinished, hfinished]
    exact pushCapped_eq_latest _ (by decide) hb.finished

/-! ### Bounded lists -/

/-- Each list holds at most its limit of rows, under different ids. -/
structure Bounded (board : TransferBoard) : Prop where
  rows : board.rows.length ≤ maxRows
  synced : board.synced.length ≤ maxRows
  rowIds : (ids board.rows).Nodup
  syncedIds : (ids board.synced).Nodup

theorem mem_listed : id ∈ board.listed ↔ id ∈ ids board.rows ∨ id ∈ ids board.synced := by
  rw [listed, List.map_append, List.mem_append]
  rfl

/-- The placeholder that `begin` gives up for a row. -/
def givenUp (board : TransferBoard) (row : TransferRow) : Option TransferRow :=
  if row.id ∉ ids board.rows ∧ maxRows ≤ board.rows.length ∧ row.preparing = false then
    board.rows.find? (·.preparing)
  else none

/-- `begin` changes the rows alone: it replaces a row or refuses the new one, adds
it where there is room, or adds it for a placeholder. -/
theorem begin_cases (hb : board.Bounded) (row : TransferRow) :
    ∃ rows, (board.begin row).1 = { board with rows } ∧
      ((board.givenUp row = none ∧ ids rows = ids board.rows) ∨
        (board.givenUp row = none ∧ row.id ∉ ids board.rows ∧ board.rows.length < maxRows ∧
          rows = board.rows ++ [row]) ∨
        (∃ placeholder, board.givenUp row = some placeholder ∧ row.id ∉ ids board.rows ∧
          rows = board.rows.filter (·.id ≠ placeholder.id) ++ [row])) := by
  unfold begin givenUp
  simp only [any_id, decide_eq_true_eq]
  by_cases hknown : row.id ∈ ids board.rows
  · have hids : ids (updateFirst row.id (fun _ => row) board.rows) = ids board.rows :=
      ids_updateFirst (fun _ _ => rfl) board.rows
    refine ⟨_, by rw [if_pos hknown], .inl ⟨?_, hids⟩⟩
    rw [if_neg (fun h => h.1 hknown)]
  rw [if_neg hknown]
  by_cases hfull : maxRows ≤ board.rows.length
  · rw [if_pos hfull]
    cases hnew : row.preparing with
    | true => exact ⟨board.rows, by simp, .inl ⟨by simp, rfl⟩⟩
    | false =>
      cases hfind : board.rows.find? (·.preparing) with
      | none =>
        have hany : board.rows.any (·.preparing) = false := by
          rw [List.any_eq_false]
          exact List.find?_eq_none.mp hfind
        exact ⟨board.rows, by simp [hany], .inl ⟨by simp, rfl⟩⟩
      | some placeholder =>
        have hany : board.rows.any (·.preparing) = true :=
          List.any_eq_true.mpr ⟨placeholder, List.mem_of_find?_eq_some hfind,
            (by simpa using List.find?_some hfind)⟩
        refine ⟨board.rows.eraseP (·.preparing) ++ [row], by simp [hany],
          .inr (.inr ⟨placeholder, by simp [hknown, hfull], hknown, ?_⟩)⟩
        rw [eraseP_eq_filter hb.rowIds hfind]
  · rw [if_neg hfull]
    refine ⟨board.rows ++ [row], rfl, .inr (.inl ⟨?_, hknown, Nat.not_le.mp hfull, rfl⟩)⟩
    rw [if_neg (fun h => hfull h.2.1)]

theorem mem_of_givenUp {placeholder : TransferRow} (h : board.givenUp row = some placeholder) :
    placeholder ∈ board.rows ∧ placeholder.preparing = true ∧ placeholder.id ≠ row.id := by
  unfold givenUp at h
  split at h
  · rename_i hcond
    have hmem := List.mem_of_find?_eq_some h
    have hkind : placeholder.preparing = true := by simpa using List.find?_some h
    refine ⟨hmem, hkind, ?_⟩
    intro heq
    exact hcond.1 (heq ▸ mem_ids_of_mem hmem)
  · cases h

/-- The rows of the Bucket that a new one leaves. -/
def kept (board : TransferBoard) (row : TransferRow) : List TransferRow :=
  board.synced.filter (fun known => !row.supersedes known)

/-- `begin_synced` replaces a row, adds one where there is room, or pushes the
oldest off its list and reports it. -/
theorem beginSynced_cases (board : TransferBoard) (row : TransferRow) :
    (∃ synced, board.beginSynced row = { board with synced }.pruneLanes ∧
        ((row.id ∈ ids (board.kept row) ∧ ids synced = ids (board.kept row)) ∨
          (row.id ∉ ids (board.kept row) ∧ (board.kept row).length < maxRows ∧
            synced = board.kept row ++ [row]))) ∨
      ∃ evicted rest, board.kept row = evicted :: rest ∧ row.id ∉ ids (board.kept row) ∧
        maxRows ≤ (board.kept row).length ∧
        board.beginSynced row =
          { board with
            synced := rest ++ [row]
            notes := board.notes.erase evicted.id
            syncedEnded := pushCapped maxFinished board.syncedEnded (evicted.syncedEnd false)
            syncedFailed :=
              pushCapped maxFinished board.syncedFailed evicted.id }.pruneLanes := by
  have hkept : board.synced.filter (fun known => !row.supersedes known) = board.kept row := rfl
  unfold beginSynced
  simp only [any_id, decide_eq_true_eq, hkept]
  by_cases hknown : row.id ∈ ids (board.kept row)
  · rw [if_pos hknown]
    exact .inl ⟨_, rfl, .inl ⟨hknown, ids_updateFirst (fun _ _ => rfl) _⟩⟩
  rw [if_neg hknown]
  cases hrows : board.kept row with
  | nil => exact .inl ⟨[row], rfl, .inr ⟨by simp, by decide, rfl⟩⟩
  | cons evicted rest =>
    rw [hrows] at hknown
    simp only [evictSynced]
    by_cases hfull : maxRows ≤ (evicted :: rest).length
    · rw [if_pos hfull]
      exact .inr ⟨evicted, rest, rfl, hknown, hfull, rfl⟩
    · rw [if_neg hfull]
      exact .inl ⟨_, rfl, .inr ⟨hknown, Nat.not_le.mp hfull, rfl⟩⟩

/-- Where a row is pushed off, the list was full and nothing was superseded. -/
theorem kept_of_full (hb : board.Bounded) (hfull : maxRows ≤ (board.kept row).length) :
    board.kept row = board.synced := by
  have hle : (board.kept row).length ≤ board.synced.length := List.length_filter_le _ _
  have hlen : (board.kept row).length = board.synced.length := by
    have := hb.synced
    omega
  exact List.filter_sublist.eq_of_length hlen

@[simp] theorem pruneLanes_rows (board : TransferBoard) : board.pruneLanes.rows = board.rows := rfl

@[simp] theorem pruneLanes_synced (board : TransferBoard) :
    board.pruneLanes.synced = board.synced := rfl

@[simp] theorem pruneLanes_notes (board : TransferBoard) :
    board.pruneLanes.notes = board.notes := rfl

/-! ### `finish` -/

theorem find?_id_isSome : (∃ row, rows.find? (·.id = id) = some row) ↔ id ∈ ids rows := by
  rw [← Option.isSome_iff_exists, List.find?_isSome, mem_ids]
  simp

theorem find?_id_none (h : id ∉ ids rows) : rows.find? (·.id = id) = none := by
  rw [← Option.not_isSome_iff_eq_none, Option.isSome_iff_exists, find?_id_isSome]
  exact h

theorem id_of_find? (h : rows.find? (·.id = id) = some row) : row.id = id := by
  simpa using List.find?_some h

/-- A filter that drops no row of the list. -/
theorem filter_ne_self (h : id ∉ ids rows) : rows.filter (·.id ≠ id) = rows := by
  rw [List.filter_eq_self]
  intro row hrow
  have : row.id ≠ id := fun heq => h (heq ▸ mem_ids_of_mem hrow)
  simpa using this

/-- The row of an id, and the others. -/
theorem perm_cons_filter (h : (ids rows).Nodup) (hrow : row ∈ rows) :
    rows.Perm (row :: rows.filter (·.id ≠ row.id)) := by
  have hnodup : rows.Nodup := List.Nodup.of_map _ h
  have hnew : row ∉ rows.filter (·.id ≠ row.id) := by simp
  rw [List.perm_ext_iff_of_nodup hnodup (List.nodup_cons.mpr ⟨hnew, hnodup.filter _⟩)]
  intro other
  simp only [List.mem_cons, List.mem_filter, decide_eq_true_eq]
  constructor
  · intro hother
    by_cases heq : other.id = row.id
    · exact .inl (eq_of_id_eq h hother hrow heq)
    · exact .inr ⟨hother, heq⟩
  · rintro (rfl | ⟨hother, _⟩)
    · exact hrow
    · exact hother

/-- A listed transfer of the Bucket ends there, and no outcome is reported. -/
theorem finish_synced (hb : board.Bounded) (outcome : Outcome) (h : id ∈ ids board.synced) :
    ∃ syncedEnded syncedFailed, board.finish id outcome =
      { board with
        synced := board.synced.filter (·.id ≠ id)
        notes := board.notes.erase id
        lanes := board.lanes.erase id
        syncedEnded, syncedFailed } := by
  obtain ⟨row, hrow⟩ := find?_id_isSome.mpr h
  have herase : board.synced.eraseP (·.id = id) = board.synced.filter (·.id ≠ id) := by
    rw [eraseP_eq_filter hb.syncedIds hrow, id_of_find? hrow]
  unfold finish
  simp only [hrow, herase]
  cases outcome.isDelivered with
  | true => exact ⟨_, _, rfl⟩
  | false => exact ⟨_, _, rfl⟩

/-- A listed transfer of the Transfers list ends, and its outcome is reported. -/
theorem finish_row (hb : board.Bounded) (hrow : row ∈ board.rows) (h : row.id ∉ ids board.synced) :
    board.finish row.id outcome =
      { board with
        rows := board.rows.filter (·.id ≠ row.id)
        notes := board.notes.erase row.id
        lanes := board.lanes.erase row.id
        retrySources := board.retrySources.erase row.id }.pushFinished
          (row.ended outcome (board.retrySources[row.id]?.filter (fun _ => outcome.isFailed))) := by
  obtain ⟨found, hfound⟩ := find?_id_isSome.mpr (mem_ids_of_mem hrow)
  have heq : found = row :=
    eq_of_id_eq hb.rowIds (List.mem_of_find?_eq_some hfound) hrow (id_of_find? hfound)
  subst found
  have herase : board.rows.eraseP (·.id = row.id) = board.rows.filter (·.id ≠ row.id) :=
    eraseP_eq_filter hb.rowIds hfound
  unfold finish
  simp only [find?_id_none h, hfound, herase]

/-- Ending what is not listed changes no list. -/
theorem finish_unlisted (hrows : id ∉ ids board.rows) (hsynced : id ∉ ids board.synced) :
    board.finish id outcome =
      { board with notes := board.notes.erase id, lanes := board.lanes.erase id } := by
  unfold finish
  simp only [find?_id_none hsynced, find?_id_none hrows]

/-- Ending a transfer takes its id off the Bucket's list, or else off the Transfers
list, and takes its note and its lane. -/
theorem finish_spec (hb : board.Bounded) (id : String) (outcome : Outcome) :
    (board.finish id outcome).synced = board.synced.filter (·.id ≠ id) ∧
      (board.finish id outcome).rows =
        (if id ∈ ids board.synced then board.rows else board.rows.filter (·.id ≠ id)) ∧
      (board.finish id outcome).notes = board.notes.erase id ∧
      (board.finish id outcome).lanes = board.lanes.erase id := by
  by_cases hsynced : id ∈ ids board.synced
  · obtain ⟨syncedEnded, syncedFailed, heq⟩ := finish_synced hb outcome hsynced
    rw [heq, if_pos hsynced]
    exact ⟨rfl, rfl, rfl, rfl⟩
  rw [if_neg hsynced, filter_ne_self hsynced]
  by_cases hrows : id ∈ ids board.rows
  · obtain ⟨row, hrow, rfl⟩ := mem_ids.mp hrows
    rw [finish_row hb hrow hsynced]
    exact ⟨rfl, rfl, rfl, rfl⟩
  · rw [finish_unlisted hrows hsynced, filter_ne_self hrows]
    exact ⟨rfl, rfl, rfl, rfl⟩

/-- What ending a transfer takes off the Transfers list is what it reports. -/
theorem finish_reports (hb : board.Bounded) (hn : board.Numbered) (id : String)
    (outcome : Outcome) :
    ∃ gone : List TransferRow, board.rows.Perm (gone ++ (board.finish id outcome).rows) ∧
      (∀ row ∈ gone, row.id = id) ∧
      Reports board (board.finish id outcome) (gone.map (fun row =>
        row.ended outcome (board.retrySources[row.id]?.filter (fun _ => outcome.isFailed)))) := by
  by_cases hsynced : id ∈ ids board.synced
  · obtain ⟨syncedEnded, syncedFailed, heq⟩ := finish_synced hb outcome hsynced
    rw [heq]
    exact ⟨[], .refl _, by simp, .none hn rfl rfl rfl⟩
  by_cases hrows : id ∈ ids board.rows
  · obtain ⟨row, hrow, rfl⟩ := mem_ids.mp hrows
    rw [finish_row hb hrow hsynced]
    refine ⟨[row], perm_cons_filter hb.rowIds hrow, by simp, ?_⟩
    apply pushFinished_reports hn <;> rfl
  · rw [finish_unlisted hrows hsynced]
    exact ⟨[], .refl _, by simp, .none hn rfl rfl rfl⟩

/-! ### Every call keeps the lists bounded -/

theorem length_ids (rows : List TransferRow) : (ids rows).length = rows.length := List.length_map _

/-- Another list with the same ids is bounded as well. -/
theorem length_of_ids {other : List TransferRow} (h : ids other = ids rows) :
    other.length = rows.length := by
  rw [← length_ids, ← length_ids, h]

theorem nodup_ids_append (h : (ids rows).Nodup) (hnew : row.id ∉ ids rows) :
    (ids (rows ++ [row])).Nodup := by
  rw [ids_append, ids_cons, ids_nil, List.nodup_append_comm]
  exact List.nodup_cons.mpr ⟨hnew, h⟩

theorem length_filter_ne_lt (h : row ∈ rows) :
    (rows.filter (·.id ≠ row.id)).length < rows.length := by
  rw [List.length_filter_lt_length_iff_exists]
  exact ⟨row, h, by simp⟩

/-- Fewer rows of a bounded board. -/
theorem Bounded.sub (hb : board.Bounded) (hrows : after.rows.Sublist board.rows)
    (hsynced : after.synced.Sublist board.synced) : after.Bounded where
  rows := hrows.length_le.trans hb.rows
  synced := hsynced.length_le.trans hb.synced
  rowIds := hb.rowIds.sublist (hrows.map _)
  syncedIds := hb.syncedIds.sublist (hsynced.map _)

/-- The same ids in the same order. -/
theorem Bounded.same (hb : board.Bounded) (hrows : ids after.rows = ids board.rows)
    (hsynced : ids after.synced = ids board.synced) : after.Bounded where
  rows := (length_of_ids hrows).trans_le hb.rows
  synced := (length_of_ids hsynced).trans_le hb.synced
  rowIds := hrows ▸ hb.rowIds
  syncedIds := hsynced ▸ hb.syncedIds

theorem begin_bounded (hb : board.Bounded) (row : TransferRow) : (board.begin row).1.Bounded := by
  obtain ⟨rows, heq, ⟨_, hids⟩ | ⟨_, hnew, hroom, rfl⟩ | ⟨placeholder, hgiven, hnew, rfl⟩⟩ :=
    begin_cases hb row
  · rw [heq]
    exact hb.same hids rfl
  · rw [heq]
    refine ⟨?_, hb.synced, nodup_ids_append hb.rowIds hnew, hb.syncedIds⟩
    simp only [List.length_append, List.length_singleton]
    omega
  · rw [heq]
    have hlt := length_filter_ne_lt (mem_of_givenUp hgiven).1
    have hrows := hb.rows
    refine ⟨?_, hb.synced, nodup_ids_append (nodup_ids_filter hb.rowIds _) ?_, hb.syncedIds⟩
    · simp only [List.length_append, List.length_singleton]
      omega
    · intro hmem
      exact hnew (mem_ids_filter_ne.mp hmem).2

theorem beginSynced_bounded (hb : board.Bounded) (row : TransferRow) :
    (board.beginSynced row).Bounded := by
  have hkept : (board.kept row).length ≤ maxRows := (List.length_filter_le _ _).trans hb.synced
  have hnodup : (ids (board.kept row)).Nodup := nodup_ids_filter hb.syncedIds _
  obtain ⟨synced, heq, ⟨_, hids⟩ | ⟨hnew, hroom, rfl⟩⟩ | ⟨evicted, rest, hrest, hnew, _, heq⟩ :=
    beginSynced_cases board row
  · rw [heq]
    exact ⟨hb.rows, (length_of_ids hids).trans_le hkept, hb.rowIds, hids ▸ hnodup⟩
  · rw [heq]
    refine ⟨hb.rows, ?_, hb.rowIds, nodup_ids_append hnodup hnew⟩
    simp only [pruneLanes_synced, List.length_append, List.length_singleton]
    omega
  · rw [hrest] at hkept hnodup hnew
    rw [heq]
    refine ⟨hb.rows, ?_, hb.rowIds, nodup_ids_append (List.nodup_cons.mp hnodup).2 ?_⟩
    · simp only [pruneLanes_synced, List.length_append, List.length_singleton]
      exact hkept
    · intro hmem
      exact hnew (List.mem_cons_of_mem _ hmem)

theorem progress_ids (board : TransferBoard) (id : String) (done : Nat) :
    ids (board.progress id done).rows = ids board.rows ∧
      ids (board.progress id done).synced = ids board.synced := by
  have hsame : ∀ rows, ids (updateFirst id (·.progressed done) rows) = ids rows :=
    ids_updateFirst (fun _ h => h)
  unfold progress
  split
  · exact ⟨hsame _, rfl⟩
  · exact ⟨rfl, hsame _⟩

theorem pauseDevice_ids (board : TransferBoard) (deviceId : String) :
    ids (board.pauseDevice deviceId).rows = ids board.rows ∧
      ids (board.pauseDevice deviceId).synced = ids board.synced := by
  have hsame : ∀ rows : List TransferRow, ids (rows.map (fun row =>
      if row.deviceId = deviceId then { row with paused := true } else row)) = ids rows := by
    intro rows
    induction rows with
    | nil => rfl
    | cons row rows ih =>
      rw [List.map_cons, ids_cons, ih, ids_cons]
      split <;> rfl
  exact ⟨hsame _, hsame _⟩

theorem finish_sublist (hb : board.Bounded) (id : String) (outcome : Outcome) :
    (board.finish id outcome).rows.Sublist board.rows ∧
      (board.finish id outcome).synced.Sublist board.synced := by
  obtain ⟨hsynced, hrows, _⟩ := finish_spec hb id outcome
  rw [hsynced, hrows]
  refine ⟨?_, List.filter_sublist⟩
  split
  · exact .refl _
  · exact List.filter_sublist

/-- Forgetting the file of a send changes neither list. -/
theorem finishGone_bounded (hb : board.Bounded) (id : String) :
    { board with retrySources := board.retrySources.erase id }.Bounded := ⟨hb.1, hb.2, hb.3, hb.4⟩

theorem finishGone_sublist (hb : board.Bounded) (reason id : String) :
    (board.finishGone reason id).rows.Sublist board.rows ∧
      (board.finishGone reason id).synced.Sublist board.synced :=
  finish_sublist (finishGone_bounded hb id) id _

/-- Ending one transfer after another only takes rows away. -/
theorem foldl_finishGone_sublist (reason : String) (list : List String) (hb : board.Bounded) :
    (list.foldl (finishGone reason) board).rows.Sublist board.rows ∧
      (list.foldl (finishGone reason) board).synced.Sublist board.synced := by
  induction list generalizing board with
  | nil => exact ⟨.refl _, .refl _⟩
  | cons id list ih =>
    obtain ⟨hrows, hsynced⟩ := finishGone_sublist hb reason id
    obtain ⟨hrest, hrestSynced⟩ := ih (hb.sub hrows hsynced)
    exact ⟨hrest.trans hrows, hrestSynced.trans hsynced⟩

theorem ne_none_of_erase (h : (m.erase id)[a]? ≠ none) : m[a]? ≠ none := by
  rw [getElem?_keyErase] at h
  split at h
  · simp at h
  · exact h

theorem ne_none_of_insert {value : String} (h : (m.insert id value)[a]? ≠ none) :
    m[a]? ≠ none ∨ id = a := by
  rw [getElem?_keyInsert] at h
  split at h
  · rename_i heq
    exact .inr heq
  · exact .inl h

/-- What is said of a transfer is kept for a listed one only. -/
theorem said_listed (board : TransferBoard) (said : KeyMap String) (id value : String) {a : String}
    (h : (if id ∈ board.listed then said.insert id value else said.erase id)[a]? ≠ none) :
    said[a]? ≠ none ∨ a ∈ board.listed := by
  split at h
  · rename_i hlisted
    rcases ne_none_of_insert h with hold | rfl
    · exact .inl hold
    · exact .inr hlisted
  · exact .inl (ne_none_of_erase h)

theorem setNote_spec (board : TransferBoard) (id : String) (note : Option String) :
    ∃ notes, board.setNote id note = { board with notes } ∧
      ∀ a : String, notes[a]? ≠ none → board.notes[a]? ≠ none ∨ a ∈ board.listed := by
  cases note with
  | none => exact ⟨_, rfl, fun _ h => .inl (ne_none_of_erase h)⟩
  | some note =>
    refine ⟨_, ?_, fun _ h => said_listed board board.notes id note h⟩
    rw [setNote]
    split <;> rfl

theorem setLane_spec (board : TransferBoard) (id : String) (lane : Option String) :
    ∃ lanes, board.setLane id lane = { board with lanes } ∧
      ∀ a : String, lanes[a]? ≠ none → board.lanes[a]? ≠ none ∨ a ∈ board.listed := by
  cases lane with
  | none => exact ⟨_, rfl, fun _ h => .inl (ne_none_of_erase h)⟩
  | some lane =>
    refine ⟨_, ?_, fun _ h => said_listed board board.lanes id lane h⟩
    rw [setLane]
    split <;> rfl

/-- Every call keeps the lists bounded, and their ids apart. -/
theorem step_bounded (hb : board.Bounded) (call : BoardCall) : (board.step call).Bounded := by
  cases call with
  | begin row => exact begin_bounded hb row
  | beginSynced row => exact beginSynced_bounded hb row
  | progress id done => exact hb.same (progress_ids board id done).1 (progress_ids board id done).2
  | setNote id note =>
    obtain ⟨notes, heq, _⟩ := setNote_spec board id note
    simp only [step, heq]
    exact ⟨hb.1, hb.2, hb.3, hb.4⟩
  | setLane id lane =>
    obtain ⟨lanes, heq, _⟩ := setLane_spec board id lane
    simp only [step, heq]
    exact ⟨hb.1, hb.2, hb.3, hb.4⟩
  | setRetrySource id path first => exact ⟨hb.1, hb.2, hb.3, hb.4⟩
  | finish id outcome =>
    obtain ⟨hrows, hsynced⟩ := finish_sublist hb id outcome
    exact hb.sub hrows hsynced
  | pauseDevice deviceId =>
    exact hb.same (pauseDevice_ids board deviceId).1 (pauseDevice_ids board deviceId).2
  | finishDevice deviceId reason =>
    obtain ⟨hrows, hsynced⟩ := foldl_finishGone_sublist reason (board.idsOf deviceId) hb
    exact hb.sub hrows hsynced
  | discard id => exact hb.sub List.filter_sublist List.filter_sublist

/-! ### Notes and lanes of listed transfers -/

/-- Whatever has a note or a lane is listed. -/
def Listed (board : TransferBoard) : Prop :=
  ∀ id : String, board.notes[id]? ≠ none ∨ board.lanes[id]? ≠ none → id ∈ board.listed

/-- The call leaves no note and no lane behind: `begin` gives up no placeholder
that has one, and `begin_synced` supersedes no row that has a note. -/
def Tidy (board : TransferBoard) : BoardCall → Prop
  | .begin row => ∀ placeholder, board.givenUp row = some placeholder →
      placeholder.id ∉ ids board.synced →
      board.notes[placeholder.id]? = none ∧ board.lanes[placeholder.id]? = none
  | .beginSynced row => ∀ known ∈ board.synced, row.supersedes known = true →
      known.id ∉ ids board.rows → board.notes[known.id]? = none
  | _ => True

theorem Listed.not_listed (hl : board.Listed) (h : id ∉ board.listed) :
    board.notes[id]? = none ∧ board.lanes[id]? = none := by
  constructor
  · by_contra hnote
    exact h (hl id (.inl hnote))
  · by_contra hlane
    exact h (hl id (.inr hlane))

/-- The same transfers are listed, with no more notes and lanes than for those. -/
theorem Listed.same (hl : board.Listed) (hlisted : ∀ id, id ∈ board.listed → id ∈ after.listed)
    (hnotes : ∀ id : String, after.notes[id]? ≠ none → board.notes[id]? ≠ none ∨ id ∈ board.listed)
    (hlanes : ∀ id : String, after.lanes[id]? ≠ none → board.lanes[id]? ≠ none ∨
      id ∈ board.listed) : after.Listed := by
  intro id h
  apply hlisted
  rcases h with h | h
  · exact (hnotes id h).elim (fun hnote => hl id (.inl hnote)) (fun hmem => hmem)
  · exact (hlanes id h).elim (fun hlane => hl id (.inr hlane)) (fun hmem => hmem)

theorem listed_of_ids (hrows : ids after.rows = ids board.rows)
    (hsynced : ids after.synced = ids board.synced) (id : String) :
    id ∈ board.listed → id ∈ after.listed := by
  rw [mem_listed, mem_listed, hrows, hsynced]
  exact fun h => h

/-- A transfer goes with its note and its lane, and the others stay. -/
theorem Listed.without (hl : board.Listed)
    (hlisted : ∀ a, a ≠ id → a ∈ board.listed → a ∈ after.listed)
    (hnotes : after.notes = board.notes.erase id) (hlanes : after.lanes = board.lanes.erase id) :
    after.Listed := by
  intro a h
  rw [hnotes, hlanes, getElem?_keyErase, getElem?_keyErase] at h
  by_cases heq : id = a
  · simp [heq] at h
  · rw [if_neg heq, if_neg heq] at h
    exact hlisted a (fun h => heq h.symm) (hl a h)

theorem finish_listed (hb : board.Bounded) (hl : board.Listed) (id : String) (outcome : Outcome) :
    (board.finish id outcome).Listed := by
  obtain ⟨hsynced, hrows, hnotes, hlanes⟩ := finish_spec hb id outcome
  refine hl.without ?_ hnotes hlanes
  intro a hne hmem
  rw [mem_listed] at hmem ⊢
  rw [hsynced, hrows]
  rcases hmem with hmem | hmem
  · left
    split
    · exact hmem
    · exact mem_ids_filter_ne.mpr ⟨hne, hmem⟩
  · exact .inr (mem_ids_filter_ne.mpr ⟨hne, hmem⟩)

theorem foldl_finishGone_listed (reason : String) (list : List String) (hb : board.Bounded)
    (hl : board.Listed) : (list.foldl (finishGone reason) board).Listed := by
  induction list generalizing board with
  | nil => exact hl
  | cons id list ih =>
    obtain ⟨hrows, hsynced⟩ := finishGone_sublist hb reason id
    exact ih (hb.sub hrows hsynced) (finish_listed (finishGone_bounded hb id) hl id _)

/-- `begin` leaves nothing behind exactly if the placeholder it gives up has no
note and no lane. -/
theorem begin_listed_iff (hb : board.Bounded) (hl : board.Listed) (row : TransferRow) :
    (board.begin row).1.Listed ↔ board.Tidy (.begin row) := by
  obtain ⟨rows, heq, ⟨hnone, hids⟩ | ⟨hnone, _, _, rfl⟩ | ⟨placeholder, hgiven, hnew, rfl⟩⟩ :=
    begin_cases hb row
  · simp only [Tidy, hnone, heq]
    refine ⟨fun _ placeholder h => (by cases h), fun _ => ?_⟩
    exact hl.same (listed_of_ids hids rfl) (fun _ h => .inl h) (fun _ h => .inl h)
  · simp only [Tidy, hnone, heq]
    refine ⟨fun _ placeholder h => (by cases h), fun _ => ?_⟩
    refine hl.same ?_ (fun _ h => .inl h) (fun _ h => .inl h)
    intro id hmem
    rw [mem_listed] at hmem ⊢
    rw [ids_append, List.mem_append]
    tauto
  · have hmem : ∀ id, id ∈ (board.begin row).1.listed ↔
        ((id ≠ placeholder.id ∧ id ∈ ids board.rows) ∨ id = row.id) ∨ id ∈ ids board.synced := by
      intro id
      rw [heq, mem_listed, ids_append, List.mem_append, mem_ids_filter_ne, ids_cons, ids_nil,
        List.mem_singleton]
    obtain ⟨hin, _, hne⟩ := mem_of_givenUp hgiven
    constructor
    · intro hlisted other hother hout
      rw [hgiven, Option.some.injEq] at hother
      subst other
      have hgone : placeholder.id ∉ (board.begin row).1.listed := by
        rw [hmem]
        tauto
      have hnothing := hlisted.not_listed hgone
      rw [heq] at hnothing
      exact hnothing
    · intro htidy id h
      rw [hmem]
      rw [heq] at h
      rcases mem_listed.mp (hl id h) with hrow | hsynced
      · by_cases hid : id = placeholder.id
        · by_cases hout : placeholder.id ∈ ids board.synced
          · exact .inr (hid ▸ hout)
          · obtain ⟨hnote, hlane⟩ := htidy placeholder hgiven hout
            subst hid
            exact absurd h (by simp [hnote, hlane])
        · exact .inl (.inl ⟨hid, hrow⟩)
      · exact .inr hsynced

theorem pruneLanes_listed :
    board.pruneLanes.Listed ↔ ∀ id : String, board.notes[id]? ≠ none → id ∈ board.listed := by
  constructor
  · exact fun h id hnote => h id (.inl hnote)
  · intro h id hkept
    rcases hkept with hnote | hlane
    · exact h id hnote
    · by_contra hout
      have hout : id ∉ board.listed := hout
      apply hlane
      rw [pruneLanes, Std.ExtTreeMap.getElem?_filter']
      simp [hout]

/-- `begin_synced` leaves nothing behind exactly if no row it supersedes has a
note. -/
theorem beginSynced_listed_iff (hb : board.Bounded) (hl : board.Listed) (row : TransferRow) :
    (board.beginSynced row).Listed ↔ board.Tidy (.beginSynced row) := by
  -- A superseded row is in neither list afterwards.
  have hgone : ∀ known ∈ board.synced, row.supersedes known = true →
      known.id ∉ ids (board.kept row) ∧ known.id ≠ row.id := by
    intro known hknown hsuper
    refine ⟨?_, by simp only [TransferRow.supersedes, Bool.and_eq_true] at hsuper; simpa using hsuper.1⟩
    intro hmem
    obtain ⟨other, hother, hid⟩ := mem_ids.mp hmem
    obtain ⟨hin, hkeep⟩ := List.mem_filter.mp hother
    rw [eq_of_id_eq hb.syncedIds hin hknown hid] at hkeep
    simp [hsuper] at hkeep
  -- A row that is not superseded is kept.
  have hkeeps : ∀ id : String, id ∈ board.listed → id ∉ ids board.rows →
      id ∈ ids (board.kept row) ∨
        ∃ known ∈ board.synced, row.supersedes known = true ∧ known.id = id := by
    intro id hlisted hrows
    rcases mem_listed.mp hlisted with h | h
    · exact absurd h hrows
    · obtain ⟨known, hknown, rfl⟩ := mem_ids.mp h
      cases hsuper : row.supersedes known with
      | true => exact .inr ⟨known, hknown, hsuper, rfl⟩
      | false => exact .inl (mem_ids_of_mem (List.mem_filter.mpr ⟨hknown, by simp [hsuper]⟩))
  obtain ⟨synced, heq, hsynced⟩ | ⟨evicted, rest, hrest, hnew, hfull, heq⟩ :=
    beginSynced_cases board row
  · have hids : ∀ id : String, id ∈ ids synced ↔ id ∈ ids (board.kept row) ∨ id = row.id := by
      intro id
      rcases hsynced with ⟨hin, hids⟩ | ⟨_, _, rfl⟩
      · rw [hids]
        exact ⟨.inl, fun h => h.elim (fun h => h) (fun h => h ▸ hin)⟩
      · simp
    rw [heq, pruneLanes_listed]
    constructor
    · intro hlisted known hknown hsuper hrows
      obtain ⟨hout, hne⟩ := hgone known hknown hsuper
      by_contra hnote
      have := mem_listed.mp (hlisted known.id hnote)
      rw [hids] at this
      tauto
    · intro htidy id hnote
      have hnote : board.notes[id]? ≠ none := hnote
      rw [mem_listed, hids]
      by_cases hrows : id ∈ ids board.rows
      · exact .inl hrows
      · rcases hkeeps id (hl id (.inl hnote)) hrows with hin | ⟨known, hknown, hsuper, rfl⟩
        · exact .inr (.inl hin)
        · exact absurd (htidy known hknown hsuper hrows) hnote
  · have hall := kept_of_full hb hfull
    have hnone : ∀ known ∈ board.synced, row.supersedes known = false := by
      intro known hknown
      rw [← hall] at hknown
      simpa using (List.mem_filter.mp hknown).2
    rw [heq, pruneLanes_listed]
    constructor
    · intro _ known hknown hsuper
      rw [hnone known hknown] at hsuper
      cases hsuper
    · intro _ id hnote
      have hnote : (board.notes.erase evicted.id)[id]? ≠ none := hnote
      rw [getElem?_keyErase] at hnote
      by_cases hid : evicted.id = id
      · simp [hid] at hnote
      · rw [if_neg hid] at hnote
        rw [mem_listed]
        by_cases hrows : id ∈ ids board.rows
        · exact .inl hrows
        · right
          rcases hkeeps id (hl id (.inl hnote)) hrows with hin | ⟨known, hknown, hsuper, _⟩
          · rw [hrest, ids_cons, List.mem_cons] at hin
            rw [ids_append, List.mem_append]
            exact .inl (hin.resolve_left (fun h => hid h.symm))
          · rw [hnone known hknown] at hsuper
            cases hsuper

/-- A call leaves no note and no lane behind exactly if it is tidy. -/
theorem step_listed_iff (hb : board.Bounded) (hl : board.Listed) (call : BoardCall) :
    (board.step call).Listed ↔ board.Tidy call := by
  cases call with
  | begin row => exact begin_listed_iff hb hl row
  | beginSynced row => exact beginSynced_listed_iff hb hl row
  | progress id done =>
    refine iff_of_true ?_ trivial
    have hkept : (board.progress id done).notes = board.notes ∧
        (board.progress id done).lanes = board.lanes := by
      unfold progress
      split <;> exact ⟨rfl, rfl⟩
    obtain ⟨hrows, hsynced⟩ := progress_ids board id done
    refine hl.same (listed_of_ids hrows hsynced) ?_ ?_
    · simp only [step, hkept.1]
      exact fun _ h => .inl h
    · simp only [step, hkept.2]
      exact fun _ h => .inl h
  | setNote id note =>
    refine iff_of_true ?_ trivial
    obtain ⟨notes, heq, hnotes⟩ := setNote_spec board id note
    simp only [step, heq]
    exact hl.same (fun _ h => h) hnotes (fun _ h => .inl h)
  | setLane id lane =>
    refine iff_of_true ?_ trivial
    obtain ⟨lanes, heq, hlanes⟩ := setLane_spec board id lane
    simp only [step, heq]
    exact hl.same (fun _ h => h) (fun _ h => .inl h) hlanes
  | setRetrySource id path first => exact iff_of_true hl trivial
  | finish id outcome => exact iff_of_true (finish_listed hb hl id outcome) trivial
  | pauseDevice deviceId =>
    refine iff_of_true ?_ trivial
    obtain ⟨hrows, hsynced⟩ := pauseDevice_ids board deviceId
    refine hl.same (listed_of_ids hrows hsynced) (fun _ h => .inl h) ?_
    intro id h
    left
    have hless : ∀ (paused : List TransferRow) (lanes : KeyMap String),
        (paused.foldl (fun lanes row => lanes.erase row.id) lanes)[id]? ≠ none →
          lanes[id]? ≠ none := by
      intro paused
      induction paused with
      | nil => exact fun _ h => h
      | cons row paused ih =>
        intro lanes h
        exact ne_none_of_erase (ih _ h)
    exact hless _ _ h
  | finishDevice deviceId reason =>
    exact iff_of_true (foldl_finishGone_listed reason _ hb hl) trivial
  | discard id =>
    refine iff_of_true ?_ trivial
    refine hl.without ?_ rfl rfl
    intro a hne hmem
    rw [mem_listed] at hmem ⊢
    exact hmem.imp (fun h => mem_ids_filter_ne.mpr ⟨hne, h⟩)
      (fun h => mem_ids_filter_ne.mpr ⟨hne, h⟩)

/-- A transfer that is not listed starts without a note and without a lane. -/
theorem Listed.fresh (hb : board.Bounded) (hl : board.Listed) (hnew : row.id ∉ board.listed) :
    ((board.begin row).1.notes[row.id]? = none ∧ (board.begin row).1.lanes[row.id]? = none) ∧
      (board.beginSynced row).notes[row.id]? = none ∧
        (board.beginSynced row).lanes[row.id]? = none := by
  obtain ⟨hnote, hlane⟩ := hl.not_listed hnew
  have hpruned : (board.lanes.filter (fun id _ => id ∈ (board.beginSynced row).listed))[row.id]?
      = none := by
    rw [Std.ExtTreeMap.getElem?_filter', hlane]
    rfl
  constructor
  · obtain ⟨rows, heq, _⟩ := begin_cases hb row
    rw [heq]
    exact ⟨hnote, hlane⟩
  · obtain ⟨synced, heq, _⟩ | ⟨evicted, rest, _, _, _, heq⟩ := beginSynced_cases board row
    · rw [heq] at hpruned ⊢
      exact ⟨hnote, hpruned⟩
    · rw [heq] at hpruned ⊢
      refine ⟨?_, hpruned⟩
      rw [pruneLanes_notes, getElem?_keyErase, hnote]
      split <;> rfl

/-! ### Leaving a list -/

/-- What a call reports of a row that it takes off the Transfers list. -/
def report (before : TransferBoard) (call : BoardCall) (row : TransferRow) : Option Finished :=
  match call with
  | .finish _ outcome =>
    some (row.ended outcome (before.retrySources[row.id]?.filter (fun _ => outcome.isFailed)))
  | .finishDevice _ reason => some (row.ended (.failed reason) none)
  | _ => none

/-- The rows that a call takes off the Transfers list. -/
def gone (before after : TransferBoard) : List TransferRow :=
  before.rows.filter (fun row => row.id ∉ ids after.rows)

/-- How rows leave the lists in a call, and what is reported of them. -/
structure Accounted (before : TransferBoard) (call : BoardCall) : Prop where
  /-- A transfer leaves the Transfers list when it, or its device, is finished or
  when it is discarded. -/
  left : ∀ row ∈ before.rows, row.preparing = false → row.id ∉ ids (before.step call).rows →
    (∃ outcome, call = .finish row.id outcome) ∨
      (∃ reason, call = .finishDevice row.deviceId reason) ∨ call = .discard row.id
  /-- Each row that is finished is reported, once, and nothing else is. -/
  reported : ((before.step call).endedSince before.endedSeq).Perm
    ((before.gone (before.step call)).filterMap (before.report call))
  /-- The same reports are queued for the window. -/
  queued : (before.step call).finished =
    latest maxFinished (before.finished ++ (before.step call).endedSince before.endedSeq)
  /-- A row of the Bucket that makes room for another is reported as ended and not
  synced. -/
  pushedOff : ∀ row, call = .beginSynced row → ∀ known ∈ before.synced,
    row.supersedes known = false → known.id ∉ ids (before.step call).synced →
    (before.step call).syncedEnded
        = pushCapped maxFinished before.syncedEnded (known.syncedEnd false) ∧
      (before.step call).syncedFailed = pushCapped maxFinished before.syncedFailed known.id

theorem finishGone_reports (hb : board.Bounded) (hn : board.Numbered) (reason id : String) :
    ∃ rows : List TransferRow, board.rows.Perm (rows ++ (board.finishGone reason id).rows) ∧
      Reports board (board.finishGone reason id)
        (rows.map (fun row => row.ended (.failed reason) none)) := by
  have hnumbered : { board with retrySources := board.retrySources.erase id }.Numbered :=
    ⟨hn.1, hn.2, hn.3⟩
  obtain ⟨rows, hperm, hid, hreports⟩ :=
    finish_reports (finishGone_bounded hb id) hnumbered id (.failed reason)
  -- The file is forgotten, so there is no second try.
  have hmap : rows.map (fun row => row.ended (.failed reason)
      ((board.retrySources.erase id)[row.id]?.filter (fun _ => (Outcome.failed reason).isFailed)))
      = rows.map (fun row => row.ended (.failed reason) none) := by
    apply List.map_congr_left
    intro row hrow
    simp [hid row hrow]
  rw [hmap] at hreports
  exact ⟨rows, hperm, hreports.seq, hreports.ended, hreports.finished⟩

theorem foldl_finishGone_reports (reason : String) (list : List String) (hb : board.Bounded)
    (hn : board.Numbered) : ∃ rows : List TransferRow,
      board.rows.Perm (rows ++ (list.foldl (finishGone reason) board).rows) ∧
        Reports board (list.foldl (finishGone reason) board)
          (rows.map (fun row => row.ended (.failed reason) none)) := by
  induction list generalizing board with
  | nil => exact ⟨[], .refl _, .none hn rfl rfl rfl⟩
  | cons id list ih =>
    obtain ⟨first, hperm, hreports⟩ := finishGone_reports hb hn reason id
    obtain ⟨hrows, hsynced⟩ := finishGone_sublist hb reason id
    obtain ⟨rest, hpermRest, hrest⟩ := ih (hb.sub hrows hsynced) (hreports.numbered hn)
    refine ⟨first ++ rest, ?_, ?_⟩
    · rw [List.append_assoc]
      exact hperm.trans (hpermRest.append_left first)
    · rw [List.map_append]
      exact hreports.trans hrest

/-- The rows of a split that are not on the list afterwards. -/
theorem gone_perm (hb : before.Bounded) (hperm : before.rows.Perm (rows ++ after.rows)) :
    (before.gone after).Perm rows := by
  have hnodup : (ids rows ++ ids after.rows).Nodup := by
    rw [← ids_append]
    exact (hperm.map TransferRow.id).nodup_iff.mp hb.rowIds
  have hout : ∀ row ∈ rows, row.id ∉ ids after.rows := fun row hrow hmem =>
    (List.nodup_append.mp hnodup).2.2 row.id (mem_ids_of_mem hrow) row.id hmem rfl
  have hsplit := hperm.filter (fun row => row.id ∉ ids after.rows)
  rw [List.filter_append] at hsplit
  have hfirst : rows.filter (fun row => row.id ∉ ids after.rows) = rows := by
    rw [List.filter_eq_self]
    intro row hrow
    simpa using hout row hrow
  have hsecond : after.rows.filter (fun row => row.id ∉ ids after.rows) = [] := by
    rw [List.filter_eq_nil_iff]
    intro row hrow
    simpa using mem_ids_of_mem hrow
  rw [hfirst, hsecond, List.append_nil] at hsplit
  exact hsplit

/-- A call that finishes nothing reports nothing. -/
theorem step_quiet (hb : board.Bounded) (hn : board.Numbered) {call : BoardCall}
    (hfinish : ∀ id outcome, call ≠ .finish id outcome)
    (hdevice : ∀ deviceId reason, call ≠ .finishDevice deviceId reason) :
    Reports board (board.step call) [] := by
  cases call with
  | begin row =>
    obtain ⟨rows, heq, _⟩ := begin_cases hb row
    simp only [step, heq]
    exact .none hn rfl rfl rfl
  | beginSynced row =>
    obtain ⟨synced, heq, _⟩ | ⟨evicted, rest, _, _, _, heq⟩ := beginSynced_cases board row
    · simp only [step, heq]
      exact .none hn rfl rfl rfl
    · simp only [step, heq]
      exact .none hn rfl rfl rfl
  | progress id done =>
    simp only [step, progress]
    split <;> exact .none hn rfl rfl rfl
  | setNote id note =>
    obtain ⟨notes, heq, _⟩ := setNote_spec board id note
    simp only [step, heq]
    exact .none hn rfl rfl rfl
  | setLane id lane =>
    obtain ⟨lanes, heq, _⟩ := setLane_spec board id lane
    simp only [step, heq]
    exact .none hn rfl rfl rfl
  | setRetrySource id path first => exact .none hn rfl rfl rfl
  | finish id outcome => exact absurd rfl (hfinish id outcome)
  | pauseDevice deviceId => exact .none hn rfl rfl rfl
  | finishDevice deviceId reason => exact absurd rfl (hdevice deviceId reason)
  | discard id => exact .none hn rfl rfl rfl

/-- What a call reports is what it finishes. -/
theorem step_reports (hb : board.Bounded) (hn : board.Numbered) (call : BoardCall) :
    ∃ news, Reports board (board.step call) news ∧ news.length ≤ maxRows ∧
      news.Perm ((board.gone (board.step call)).filterMap (board.report call)) := by
  have hnone : ∀ rows : List TransferRow, rows.filterMap (fun _ => (none : Option Finished)) = [] := by
    intro rows
    simp
  by_cases hfinish : ∃ id outcome, call = .finish id outcome
  · obtain ⟨id, outcome, rfl⟩ := hfinish
    obtain ⟨rows, hperm, _, hreports⟩ := finish_reports hb hn id outcome
    refine ⟨_, hreports, ?_, ?_⟩
    · have := hperm.length_eq
      have := hb.rows
      simp only [List.length_map, List.length_append] at *
      omega
    · rw [← List.filterMap_eq_map]
      exact (gone_perm hb hperm).symm.filterMap _
  by_cases hdevice : ∃ deviceId reason, call = .finishDevice deviceId reason
  · obtain ⟨deviceId, reason, rfl⟩ := hdevice
    obtain ⟨rows, hperm, hreports⟩ :=
      foldl_finishGone_reports reason (board.idsOf deviceId) hb hn
    refine ⟨_, hreports, ?_, ?_⟩
    · have := hperm.length_eq
      have := hb.rows
      simp only [List.length_map, List.length_append] at *
      omega
    · rw [← List.filterMap_eq_map]
      exact (gone_perm hb hperm).symm.filterMap _
  · push Not at hfinish hdevice
    refine ⟨[], step_quiet hb hn hfinish hdevice, Nat.zero_le _, ?_⟩
    have hreport : board.report call = fun _ => none := by
      cases call with
      | finish id outcome => exact absurd rfl (hfinish id outcome)
      | finishDevice deviceId reason => exact absurd rfl (hdevice deviceId reason)
      | begin | beginSynced | progress | setNote | setLane | setRetrySource | pauseDevice | discard =>
        rfl
    rw [hreport, hnone]

/-! ### What `finish_device` leaves -/

/-- The rows and the Bucket's rows of other ids stay. -/
theorem finishGone_other (hb : board.Bounded) (reason : String) (hne : row.id ≠ id) :
    (row ∈ board.rows → row ∈ (board.finishGone reason id).rows) ∧
      (row ∈ board.synced → row ∈ (board.finishGone reason id).synced) := by
  obtain ⟨hsynced, hrows, _⟩ := finish_spec (finishGone_bounded hb id) id (.failed reason)
  unfold finishGone
  rw [hsynced, hrows]
  have hkeep : ∀ rows : List TransferRow, row ∈ rows → row ∈ rows.filter (·.id ≠ id) := by
    intro rows hrow
    simp [hrow, hne]
  refine ⟨fun hrow => ?_, hkeep _⟩
  split
  · exact hrow
  · exact hkeep _ hrow

theorem foldl_finishGone_other (reason : String) (list : List String) (hb : board.Bounded)
    (hout : row.id ∉ list) :
    (row ∈ board.rows → row ∈ (list.foldl (finishGone reason) board).rows) ∧
      (row ∈ board.synced → row ∈ (list.foldl (finishGone reason) board).synced) := by
  induction list generalizing board with
  | nil => exact ⟨fun h => h, fun h => h⟩
  | cons id list ih =>
    obtain ⟨hrows, hsynced⟩ := finishGone_sublist hb reason id
    obtain ⟨hrow, hsyncedRow⟩ :=
      finishGone_other hb reason (fun h => hout (h ▸ List.mem_cons_self) : row.id ≠ id)
    obtain ⟨hrest, hrestSynced⟩ :=
      ih (hb.sub hrows hsynced) (fun h => hout (List.mem_cons_of_mem _ h))
    exact ⟨fun h => hrest (hrow h), fun h => hrestSynced (hsyncedRow h)⟩

/-- A row of another device stays, also when a Bucket transfer of the device has
its id. -/
theorem finishDevice_other (hb : board.Bounded) (deviceId reason : String) (hrow : row ∈ board.rows)
    (hne : row.deviceId ≠ deviceId) : row ∈ (board.finishDevice deviceId reason).1.rows := by
  have hids : board.idsOf deviceId = ids (board.rows.filter (·.deviceId = deviceId))
      ++ ids (board.synced.filter (·.deviceId = deviceId)) := by
    rw [idsOf, List.filter_append, List.map_append]
    rfl
  have hfirst : row.id ∉ ids (board.rows.filter (·.deviceId = deviceId)) := by
    intro hmem
    obtain ⟨other, hother, hid⟩ := mem_ids.mp hmem
    obtain ⟨hin, hdevice⟩ := List.mem_filter.mp hother
    rw [eq_of_id_eq hb.rowIds hin hrow hid] at hdevice
    exact hne (by simpa using hdevice)
  simp only [finishDevice, hids]
  by_cases hsecond : row.id ∈ ids (board.synced.filter (·.deviceId = deviceId))
  · -- The Bucket transfer of that id is ended in its place.
    obtain ⟨known, hknown, hid⟩ := mem_ids.mp hsecond
    obtain ⟨before, after, hsplit⟩ := List.append_of_mem hsecond
    have hnodup : (before ++ row.id :: after).Nodup := hsplit ▸ nodup_ids_filter hb.syncedIds _
    have hbefore : row.id ∉ before := fun h =>
      (List.nodup_append.mp hnodup).2.2 row.id h row.id List.mem_cons_self rfl
    have hafter : row.id ∉ after := (List.nodup_cons.mp (List.nodup_append.mp hnodup).2.1).1
    have hout : row.id ∉ ids (board.rows.filter (·.deviceId = deviceId)) ++ before := by
      rw [List.mem_append]
      exact fun h => h.elim hfirst hbefore
    rw [hsplit, ← List.append_assoc, List.foldl_append, List.foldl_cons]
    generalize hlist : ids (board.rows.filter (·.deviceId = deviceId)) ++ before = list at hout ⊢
    obtain ⟨hrows, hsynced⟩ := foldl_finishGone_sublist reason list hb
    have hmid := hb.sub hrows hsynced
    have hrowMid := (foldl_finishGone_other reason list hb hout).1 hrow
    have hknownMid : known ∈ (list.foldl (finishGone reason) board).synced :=
      (foldl_finishGone_other reason list hb (hid ▸ hout : known.id ∉ list)).2
        (List.mem_filter.mp hknown).1
    obtain ⟨hrowsNext, hsyncedNext⟩ := finishGone_sublist hmid reason row.id
    have hrowNext : row ∈ ((list.foldl (finishGone reason) board).finishGone reason row.id).rows := by
      have hlisted : row.id ∈ ids (list.foldl (finishGone reason) board).synced :=
        hid ▸ mem_ids_of_mem hknownMid
      have hspec : ((list.foldl (finishGone reason) board).finishGone reason row.id).rows = _ :=
        (finish_spec (finishGone_bounded hmid row.id) row.id (.failed reason)).2.1
      rw [if_pos hlisted] at hspec
      rw [hspec]
      exact hrowMid
    exact (foldl_finishGone_other reason after (hmid.sub hrowsNext hsyncedNext) hafter).1 hrowNext
  · refine (foldl_finishGone_other reason _ hb ?_).1 hrow
    rw [List.mem_append]
    exact fun h => h.elim hfirst hsecond

/-! ### Every sequence of calls -/

/-- A row leaves the list by a call that says so. -/
theorem step_left (hb : board.Bounded) (call : BoardCall) (hrow : row ∈ board.rows)
    (hreal : row.preparing = false) (hout : row.id ∉ ids (board.step call).rows) :
    (∃ outcome, call = .finish row.id outcome) ∨
      (∃ reason, call = .finishDevice row.deviceId reason) ∨ call = .discard row.id := by
  have hin := mem_ids_of_mem hrow
  cases call with
  | begin new =>
    exfalso
    obtain ⟨rows, heq, ⟨_, hids⟩ | ⟨_, _, _, rfl⟩ | ⟨placeholder, hgiven, _, rfl⟩⟩ :=
      begin_cases hb new
    · simp only [step, heq, hids] at hout
      exact hout hin
    · simp only [step, heq, ids_append, List.mem_append] at hout
      exact hout (.inl hin)
    · -- Only the placeholder goes.
      simp only [step, heq, ids_append, List.mem_append, mem_ids_filter_ne] at hout
      obtain ⟨hplaceholder, hkind, _⟩ := mem_of_givenUp hgiven
      by_cases hid : row.id = placeholder.id
      · rw [eq_of_id_eq hb.rowIds hrow hplaceholder hid, hkind] at hreal
        cases hreal
      · exact hout (.inl ⟨hid, hin⟩)
  | beginSynced new =>
    exfalso
    obtain ⟨synced, heq, _⟩ | ⟨evicted, rest, _, _, _, heq⟩ := beginSynced_cases board new
    · simp only [step, heq, pruneLanes_rows] at hout
      exact hout hin
    · simp only [step, heq, pruneLanes_rows] at hout
      exact hout hin
  | progress id done =>
    simp only [step, (progress_ids board id done).1] at hout
    exact absurd hin hout
  | setNote id note =>
    obtain ⟨notes, heq, _⟩ := setNote_spec board id note
    simp only [step, heq] at hout
    exact absurd hin hout
  | setLane id lane =>
    obtain ⟨lanes, heq, _⟩ := setLane_spec board id lane
    simp only [step, heq] at hout
    exact absurd hin hout
  | setRetrySource id path first => exact absurd hin hout
  | finish id outcome =>
    left
    obtain ⟨_, hrows, _⟩ := finish_spec hb id outcome
    simp only [step, hrows] at hout
    split at hout
    · exact absurd hin hout
    · by_cases hid : row.id = id
      · exact ⟨outcome, by rw [hid]⟩
      · exact absurd (mem_ids_filter_ne.mpr ⟨hid, hin⟩) hout
  | pauseDevice deviceId =>
    simp only [step, (pauseDevice_ids board deviceId).1] at hout
    exact absurd hin hout
  | finishDevice deviceId reason =>
    right; left
    by_cases hdevice : row.deviceId = deviceId
    · exact ⟨reason, by rw [hdevice]⟩
    · exact absurd (mem_ids_of_mem (finishDevice_other hb deviceId reason hrow hdevice)) hout
  | discard id =>
    right; right
    by_cases hid : row.id = id
    · rw [hid]
    · exact absurd (mem_ids_filter_ne.mpr ⟨hid, hin⟩) hout

/-- Every call accounts for the rows it takes away. -/
theorem step_accounted (hb : board.Bounded) (hn : board.Numbered) (call : BoardCall) :
    board.Accounted call := by
  obtain ⟨news, hreports, hlen, hperm⟩ := step_reports hb hn call
  have hsince : (board.step call).endedSince board.endedSeq = news := hreports.endedSince hn hlen
  refine ⟨fun row hrow hreal hout => step_left hb call hrow hreal hout, ?_, ?_, ?_⟩
  · rw [hsince]
    exact hperm
  · rw [hsince]
    exact hreports.finished
  · rintro row rfl known hknown hsuper hout
    have hkeep : known ∈ board.kept row := List.mem_filter.mpr ⟨hknown, by simp [hsuper]⟩
    obtain ⟨synced, heq, ⟨_, hids⟩ | ⟨_, _, rfl⟩⟩ | ⟨evicted, rest, hrest, _, _, heq⟩ :=
      beginSynced_cases board row
    · simp only [step, heq, pruneLanes_synced, hids] at hout
      exact absurd (mem_ids_of_mem hkeep) hout
    · simp only [step, heq, pruneLanes_synced, ids_append, List.mem_append] at hout
      exact absurd (.inl (mem_ids_of_mem hkeep)) hout
    · simp only [step, heq, pruneLanes_synced, ids_append, List.mem_append] at hout
      -- It is the oldest, since the rest stays.
      have hoff : known = evicted := by
        rw [hrest, List.mem_cons] at hkeep
        exact hkeep.resolve_right (fun h => hout (.inl (mem_ids_of_mem h)))
      subst known
      simp only [step, heq]
      exact ⟨rfl, rfl⟩

theorem run_append (past : List BoardCall) (call : BoardCall) :
    run (past ++ [call]) = (run past).step call := by
  simp [run]

/-- The lists are bounded after every sequence of calls, and the outcomes numbered. -/
theorem run_bounded (calls : List BoardCall) : (run calls).Bounded ∧ (run calls).Numbered := by
  induction calls using List.reverseRecOn with
  | nil => exact ⟨⟨by decide, by decide, .nil, .nil⟩, ⟨by simp [run], by decide, by decide⟩⟩
  | append_singleton past call ih =>
    rw [run_append]
    obtain ⟨news, hreports, _⟩ := step_reports ih.1 ih.2 call
    exact ⟨step_bounded ih.1 call, hreports.numbered ih.2⟩

/-- The board after every sequence of calls. Both lists are bounded with different
ids; what leaves them is accounted for; and notes and lanes are those of listed
transfers throughout exactly if every call is tidy, so that a new transfer then has
neither. -/
theorem board_consistent (calls : List BoardCall) :
    (∀ past, past <+: calls → (run past).Bounded) ∧
      (∀ past call, past ++ [call] <+: calls → (run past).Accounted call) ∧
      ((∀ past, past <+: calls → (run past).Listed) ↔
        ∀ past call, past ++ [call] <+: calls → (run past).Tidy call) ∧
      ∀ past row, past <+: calls → (run past).Listed → row.id ∉ (run past).listed →
        (((run past).begin row).1.notes[row.id]? = none ∧
            ((run past).begin row).1.lanes[row.id]? = none) ∧
          ((run past).beginSynced row).notes[row.id]? = none ∧
            ((run past).beginSynced row).lanes[row.id]? = none := by
  refine ⟨fun past _ => (run_bounded past).1,
    fun past call _ => step_accounted (run_bounded past).1 (run_bounded past).2 call, ?_,
    fun past row _ hl hnew => hl.fresh (run_bounded past).1 hnew⟩
  constructor
  · intro hlisted past call hprefix
    have hpast : past <+: calls := (List.prefix_append past [call]).trans hprefix
    rw [← step_listed_iff (run_bounded past).1 (hlisted past hpast), ← run_append]
    exact hlisted _ hprefix
  · intro htidy past
    induction past using List.reverseRecOn with
    | nil =>
      intro _ id h
      simp [run] at h
    | append_singleton past call ih =>
      intro hprefix
      have hpast : past <+: calls := (List.prefix_append past [call]).trans hprefix
      rw [run_append, step_listed_iff (run_bounded past).1 (ih hpast)]
      exact htidy past call hprefix

/-- A file of the Bucket that waits and is then begun again under another id: the
first transfer is listed no more, its note is still there, and the next transfer
under that id inherits it. -/
theorem note_outlives :
    ∃ (calls : List BoardCall) (id : String), id ∉ (run calls).listed ∧
      (run calls).notes[id]? = some "Storage is full." ∧
      ∃ row : TransferRow, row.id = id ∧
        ((run calls).begin row).1.notes[id]? = some "Storage is full." := by
  refine ⟨[.beginSynced ⟨"t1", "phone", "a.txt", true, 0, 9, false, false⟩,
    .setNote "t1" (some "Storage is full."),
    .beginSynced ⟨"t2", "phone", "a.txt", true, 0, 10, false, false⟩], "t1", ?_, ?_,
    ⟨"t1", "phone", "b.txt", true, 0, 3, false, false⟩, rfl, ?_⟩
  · decide +kernel
  · decide +kernel
  · decide +kernel

end TransferBoard

end DeskLink.Board
