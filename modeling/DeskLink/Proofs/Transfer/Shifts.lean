import DeskLink.Proofs.Transfer.Tracker

/-!
# `DeskLink.Proofs.Transfer.Shifts`: what a call does to the Bucket's list

`TransferBoard.Shifts` says what a call takes off the Bucket's list, what it adds, and which
failures it notes. `TransferBoard.step_shifts`: every call does so, while the failures have
room.
-/

set_option autoImplicit false

namespace DeskLink.Board

/-- A failure is not pushed off a queue that has room. -/
theorem pushCapped_room {α : Type} {limit : Nat} {queue : List α} (item : α)
    (h : queue.length + 1 ≤ limit) : pushCapped limit queue item = queue ++ [item] := by
  rw [pushCapped, if_neg (by omega)]

theorem mem_updateFirst {id : String} {f : TransferRow → TransferRow} {rows : List TransferRow}
    {row : TransferRow} (h : row ∈ updateFirst id f rows) :
    row ∈ rows ∨ ∃ old ∈ rows, old.id = id ∧ row = f old := by
  induction rows with
  | nil => cases h
  | cons first rows ih =>
    rw [updateFirst] at h
    split at h
    · rename_i hid
      rcases List.mem_cons.mp h with rfl | hrest
      · exact .inr ⟨first, List.mem_cons_self, hid, rfl⟩
      · exact .inl (List.mem_cons_of_mem _ hrest)
    · rcases List.mem_cons.mp h with rfl | hrest
      · exact .inl List.mem_cons_self
      · rcases ih hrest with hold | ⟨old, hold, hid, heq⟩
        · exact .inl (List.mem_cons_of_mem _ hold)
        · exact .inr ⟨old, List.mem_cons_of_mem _ hold, hid, heq⟩

/-- The row a call adds. -/
def BucketCall.begun : BucketCall → Option TransferRow
  | .beginSynced row => some row
  | .progress .. | .finish .. | .finishDevice .. | .discard _ => none

namespace TransferBoard

variable {board : TransferBoard}

/-! ### The rows a call leaves -/

/-- A call's effect on the Bucket's list: what it loses it had and has no longer, every other
failure stays, and what is new is `begun`. -/
structure Shifts (board after : TransferBoard) (begun : Option TransferRow)
    (lost : List String) : Prop where
  rows : after.rows = []
  bounded : after.Bounded
  failed : after.syncedFailed = board.syncedFailed ++ lost
  lost : ∀ id ∈ lost, id ∈ ids board.synced ∧ id ∉ ids after.synced
  synced : ∀ row ∈ after.synced, some row = begun ∨
    ∃ old ∈ board.synced, old.id = row.id ∧ old.deviceId = row.deviceId

/-- Fewer rows, and no failure. -/
theorem Shifts.fewer {after : TransferBoard} (hrows : board.rows = []) (hb : after.Bounded)
    (hafter : after.rows.Sublist board.rows) (hsynced : after.synced.Sublist board.synced)
    (hfailed : after.syncedFailed = board.syncedFailed) : board.Shifts after none [] where
  rows := List.sublist_nil.mp (hrows ▸ hafter)
  bounded := hb
  failed := by rw [hfailed, List.append_nil]
  lost := fun _ h => absurd h List.not_mem_nil
  synced := fun row h => .inr ⟨row, hsynced.mem h, rfl, rfl⟩

theorem mem_beginSynced {row known : TransferRow} (h : known ∈ (board.beginSynced row).synced) :
    known = row ∨ known ∈ board.synced := by
  have hkept : ∀ known ∈ board.kept row, known ∈ board.synced := fun _ => List.mem_of_mem_filter
  by_cases hlisted : row.id ∈ ids (board.kept row)
  · have hsynced : (board.beginSynced row).synced
        = updateFirst row.id (fun _ => row) (board.kept row) := by
      have heq : board.synced.filter (fun known => !row.supersedes known) = board.kept row := rfl
      unfold beginSynced
      simp only [any_id, decide_eq_true_eq, heq]
      rw [if_pos hlisted]
      rfl
    rw [hsynced] at h
    rcases mem_updateFirst h with hold | ⟨_, _, _, heq⟩
    · exact .inr (hkept known hold)
    · exact .inl heq
  · obtain ⟨synced, heq, ⟨hin, _⟩ | ⟨_, _, rfl⟩⟩ | ⟨evicted, rest, hrest, _, _, heq⟩ :=
      beginSynced_cases board row
    · exact absurd hin hlisted
    · rw [heq, pruneLanes_synced, List.mem_append, List.mem_singleton] at h
      rcases h with hold | hnew
      · exact .inr (hkept known hold)
      · exact .inl hnew
    · rw [heq, pruneLanes_synced, List.mem_append, List.mem_singleton] at h
      rcases h with hold | hnew
      · exact .inr (hkept known (hrest ▸ List.mem_cons_of_mem _ hold))
      · exact .inl hnew

/-- What `begin_synced` loses is the row it pushes off. -/
theorem beginSynced_shifts (hb : board.Bounded) (hrows : board.rows = []) {row : TransferRow}
    (hroom : board.syncedFailed.length + (board.failing (.beginSynced row)).length
      ≤ maxFinished) :
    board.Shifts (board.beginSynced row) (some row) (board.failing (.beginSynced row)) := by
  have hbounded := beginSynced_bounded hb row
  have hsynced : ∀ known ∈ (board.beginSynced row).synced, some known = some row ∨
      ∃ old ∈ board.synced, old.id = known.id ∧ old.deviceId = known.deviceId := by
    intro known hknown
    rcases mem_beginSynced hknown with rfl | hold
    · exact .inl rfl
    · exact .inr ⟨known, hold, rfl, rfl⟩
  have hfailing : board.failing (.beginSynced row)
      = if row.id ∈ ids (board.kept row) ∨ (board.kept row).length < maxRows then []
        else ((board.kept row).take 1).map (·.id) := by
    simp only [failing, any_id, Bool.or_eq_true, decide_eq_true_eq]
    rfl
  obtain ⟨synced, heq, hcase⟩ | ⟨evicted, rest, hrest, hnew, hfull, heq⟩ :=
    beginSynced_cases board row
  · have hnone : board.failing (.beginSynced row) = [] := by
      rw [hfailing, if_pos]
      rcases hcase with ⟨hin, _⟩ | ⟨_, hlen, _⟩
      · exact .inl hin
      · exact .inr hlen
    rw [hnone]
    refine ⟨?_, hbounded, ?_, fun _ h => absurd h List.not_mem_nil, hsynced⟩
    · rw [heq]
      exact hrows
    · rw [heq, List.append_nil]
      rfl
  · have hone : board.failing (.beginSynced row) = [evicted.id] := by
      rw [hfailing, if_neg, hrest]
      · rfl
      · rintro (hin | hlen)
        · exact hnew hin
        · omega
    rw [hone] at hroom ⊢
    refine ⟨?_, hbounded, ?_, ?_, hsynced⟩
    · rw [heq]
      exact hrows
    · rw [heq]
      exact pushCapped_room evicted.id hroom
    · intro id hid
      rw [List.mem_singleton] at hid
      subst hid
      have hkept := kept_of_full hb hfull
      have hnodup : (ids (evicted :: rest)).Nodup := by
        rw [← hrest, hkept]
        exact hb.syncedIds
      refine ⟨?_, ?_⟩
      · rw [← hkept, hrest]
        exact List.mem_cons_self
      · rw [heq, pruneLanes_synced, ids_append, List.mem_append]
        rintro (hin | hin)
        · exact (List.nodup_cons.mp hnodup).1 hin
        · rw [ids_cons, ids_nil, List.mem_singleton] at hin
          rw [hrest] at hnew
          exact hnew (hin ▸ List.mem_cons_self)

/-! ### Ends -/

/-- What ends without its file is a failure of the Bucket, where there is room for it. -/
theorem finish_lost {id : String} {outcome : Outcome} (hin : id ∈ ids board.synced)
    (hlost : outcome.isDelivered = false) (hroom : board.syncedFailed.length + 1 ≤ maxFinished) :
    (board.finish id outcome).syncedFailed = board.syncedFailed ++ [id] := by
  obtain ⟨row, hrow⟩ := find?_id_isSome.mpr hin
  unfold finish
  simp only [hrow, hlost, Bool.false_eq_true, ↓reduceIte]
  exact pushCapped_room id hroom

/-- Any other end is no failure. -/
theorem finish_kept {id : String} {outcome : Outcome} (hrows : board.rows = [])
    (h : ¬(id ∈ ids board.synced ∧ outcome.isDelivered = false)) :
    (board.finish id outcome).syncedFailed = board.syncedFailed := by
  by_cases hin : id ∈ ids board.synced
  · obtain ⟨row, hrow⟩ := find?_id_isSome.mpr hin
    have hdelivered : outcome.isDelivered = true := by
      rw [← Bool.not_eq_false]
      exact fun hlost => h ⟨hin, hlost⟩
    unfold finish
    simp only [hrow, hdelivered, ↓reduceIte]
    rfl
  · rw [finish_unlisted (by simp [hrows]) hin]

/-- Ending transfers of the Bucket, one after another, loses them all. -/
theorem foldl_finishGone_lost (reason : String) (list : List String) (hb : board.Bounded)
    (hrows : board.rows = []) (hnodup : list.Nodup) (hlisted : ∀ id ∈ list, id ∈ ids board.synced)
    (hroom : board.syncedFailed.length + list.length ≤ maxFinished) :
    (list.foldl (finishGone reason) board).syncedFailed = board.syncedFailed ++ list ∧
      ∀ id ∈ list, id ∉ ids (list.foldl (finishGone reason) board).synced := by
  induction list generalizing board with
  | nil => exact ⟨(List.append_nil _).symm, fun _ h => absurd h List.not_mem_nil⟩
  | cons id list ih =>
    have hin := hlisted id List.mem_cons_self
    obtain ⟨hnew, hrest⟩ := List.nodup_cons.mp hnodup
    rw [List.length_cons] at hroom
    have hspec := finish_spec (finishGone_bounded hb id) id (.failed reason)
    have hsynced : (board.finishGone reason id).synced = board.synced.filter (·.id ≠ id) :=
      hspec.1
    have hfailed : (board.finishGone reason id).syncedFailed = board.syncedFailed ++ [id] :=
      @finish_lost { board with retrySources := board.retrySources.erase id } id (.failed reason)
        hin rfl (by show board.syncedFailed.length + 1 ≤ _; omega)
    obtain ⟨hsubRows, hsubSynced⟩ := finishGone_sublist hb reason id
    have hstill : ∀ other ∈ list, other ∈ ids (board.finishGone reason id).synced := by
      intro other hother
      rw [hsynced]
      exact mem_ids_filter_ne.mpr
        ⟨fun heq => hnew (heq ▸ hother), hlisted other (List.mem_cons_of_mem _ hother)⟩
    obtain ⟨hmore, hgone⟩ := ih (hb.sub hsubRows hsubSynced)
      (List.sublist_nil.mp (hrows ▸ hsubRows)) hrest hstill (by simp [hfailed]; omega)
    rw [List.foldl_cons]
    refine ⟨by rw [hmore, hfailed, List.append_assoc, List.singleton_append], ?_⟩
    intro other hother
    rcases List.mem_cons.mp hother with rfl | hother
    · intro hmem
      have hafter := (foldl_finishGone_sublist reason list (hb.sub hsubRows hsubSynced)).2
      have hleft := (hafter.map TransferRow.id).mem hmem
      have hin' : other ∈ ids (board.synced.filter (·.id ≠ other)) := hsynced ▸ hleft
      exact (mem_ids_filter_ne.mp hin').1 rfl
    · exact hgone other hother

/-! ### Every call -/

/-- Every call shifts the Bucket's list, and loses what it fails. -/
theorem step_shifts (hb : board.Bounded) (hrows : board.rows = []) {call : BucketCall}
    (hroom : board.syncedFailed.length + (board.failing call).length ≤ maxFinished) :
    board.Shifts (board.step call.call) call.begun (board.failing call) := by
  have hbounded := step_bounded hb call.call
  cases call with
  | beginSynced row => exact beginSynced_shifts hb hrows hroom
  | progress id done =>
    have hstep : board.progress id done
        = { board with synced := updateFirst id (·.progressed done) board.synced } := by
      rw [progress, hrows]
      rfl
    refine ⟨?_, hbounded, ?_, fun _ h => absurd h List.not_mem_nil, ?_⟩
    · show (board.progress id done).rows = []
      rw [hstep]
      exact hrows
    · show (board.progress id done).syncedFailed = _ ++ []
      rw [hstep, List.append_nil]
    · intro row hrow
      have hrow' : row ∈ (board.progress id done).synced := hrow
      rw [hstep] at hrow'
      rcases mem_updateFirst hrow' with hold | ⟨old, hold, _, rfl⟩
      · exact .inr ⟨row, hold, rfl, rfl⟩
      · exact .inr ⟨old, hold, rfl, rfl⟩
  | finish id outcome =>
    obtain ⟨hsubRows, hsubSynced⟩ := finish_sublist hb id outcome
    obtain ⟨hsynced, _⟩ := finish_spec hb id outcome
    have hfailing : board.failing (.finish id outcome)
        = if id ∈ ids board.synced ∧ outcome.isDelivered = false then [id] else [] := by
      simp [failing]
    refine ⟨List.sublist_nil.mp (hrows ▸ hsubRows), hbounded, ?_, ?_, ?_⟩
    · rw [hfailing]
      by_cases hlost : id ∈ ids board.synced ∧ outcome.isDelivered = false
      · rw [hfailing, if_pos hlost] at hroom
        rw [if_pos hlost]
        exact finish_lost hlost.1 hlost.2 hroom
      · rw [if_neg hlost, List.append_nil]
        exact finish_kept hrows hlost
    · intro other hother
      rw [hfailing] at hother
      split at hother
      · rename_i hlost
        rw [List.mem_singleton] at hother
        subst hother
        refine ⟨hlost.1, fun hmem => ?_⟩
        have hmem' : other ∈ ids (board.finish other outcome).synced := hmem
        rw [hsynced] at hmem'
        exact (mem_ids_filter_ne.mp hmem').1 rfl
      · cases hother
    · exact fun row hrow => .inr ⟨row, hsubSynced.mem hrow, rfl, rfl⟩
  | finishDevice deviceId reason =>
    have hids : board.idsOf deviceId = board.failing (.finishDevice deviceId reason) := by
      rw [idsOf, hrows, List.nil_append, failing]
    obtain ⟨hsubRows, hsubSynced⟩ :=
      foldl_finishGone_sublist reason (board.idsOf deviceId) hb
    have hlisted : ∀ id ∈ board.idsOf deviceId, id ∈ ids board.synced := by
      intro id hid
      rw [hids, failing] at hid
      obtain ⟨row, hrow, rfl⟩ := List.mem_map.mp hid
      exact mem_ids_of_mem (List.mem_of_mem_filter hrow)
    have hnodup : (board.idsOf deviceId).Nodup := by
      rw [hids, failing]
      exact nodup_ids_filter hb.syncedIds _
    rw [← hids] at hroom ⊢
    obtain ⟨hfailed, hgone⟩ :=
      foldl_finishGone_lost reason _ hb hrows hnodup hlisted hroom
    refine ⟨List.sublist_nil.mp (hrows ▸ hsubRows), hbounded, hfailed, ?_, ?_⟩
    · exact fun id hid => ⟨hlisted id hid, hgone id hid⟩
    · exact fun row hrow => .inr ⟨row, hsubSynced.mem hrow, rfl, rfl⟩
  | discard id =>
    exact .fewer hrows hbounded List.filter_sublist List.filter_sublist rfl

end TransferBoard

end DeskLink.Board
