import DeskLink.Calls.Hold

/-!
# `DeskLink.Proofs.Calls.Hold`: paused music is played again

`update_cases` lists what a call's start or end does to the bookkeeping. Every
player that was paused is played already, waits in `paused`, is being recorded or
is in a resume job (`Accounted`), so no player is played that was not paused.

What is recorded while nobody is in a call stays in `paused` until the end of
another call. `Late` is such a step, and `music_resumed` says that nothing else
keeps music from being played again. `short_call` is a call that is over before its
pause job runs.
-/

set_option autoImplicit false

namespace DeskLink.Calls

open Lib (runFrom runFrom_append_eq_some)

/-! ### The bookkeeping -/

/-- What a call's start or end does: the first call begins, the last one ends, or
neither. -/
inductive UpdateCase (hold : MediaHold) (deviceId : String) :
    Bool → MediaHold × HoldStep → Prop
  | begins (hnone : hold.inCall.isEmpty = true) (calls : KeySet) (hcalls : calls.isEmpty = false) :
    UpdateCase hold deviceId true ({ hold with inCall := calls }, .pause)
  | ends (hsome : hold.inCall.isEmpty = false) (calls : KeySet) (hcalls : calls.isEmpty = true) :
    UpdateCase hold deviceId false ({ inCall := calls, paused := [] }, .resume hold.paused)
  | goesOn (inCall : Bool) (calls : KeySet) (hcalls : calls.isEmpty = hold.inCall.isEmpty)
      (hnone : hold.inCall.isEmpty = true → inCall = false) :
    UpdateCase hold deviceId inCall ({ hold with inCall := calls }, .nothing)

theorem update_cases (hold : MediaHold) (deviceId : String) (inCall : Bool) :
    UpdateCase hold deviceId inCall (hold.update deviceId inCall) := by
  unfold MediaHold.update
  cases inCall with
  | true =>
    have hcalls : (hold.inCall.insert deviceId).isEmpty = false := by simp
    simp only [if_true, hcalls]
    cases hbefore : hold.inCall.isEmpty with
    | true => exact .begins hbefore _ hcalls
    | false => exact .goesOn true _ (hcalls.trans hbefore.symm) (by simp [hbefore])
  | false =>
    simp only [Bool.false_eq_true, if_false]
    cases hbefore : hold.inCall.isEmpty with
    | true =>
      have hcalls : (hold.inCall.erase deviceId).isEmpty = true := by
        simp [Std.ExtTreeSet.isEmpty_iff.mp hbefore]
      simp only [hcalls]
      exact .goesOn false _ (hcalls.trans hbefore.symm) (fun _ => rfl)
    | false =>
      cases hcalls : (hold.inCall.erase deviceId).isEmpty with
      | true => exact .ends hbefore _ hcalls
      | false => exact .goesOn false _ (hcalls.trans hbefore.symm) (fun _ => rfl)

namespace Desk

/-! ### What became of each player -/

/-- How often the jobs that wait play a player. -/
def toPlay (jobs : List HoldStep) (player : String) : Nat :=
  (jobs.map (fun job =>
    match job with
    | .resume players => players.count player
    | .pause | .nothing => 0)).sum

/-- How often a player is being recorded. -/
def beingRecorded (desk : Desk) (player : String) : Nat := (desk.recording.getD []).count player

def timesPaused (desk : Desk) (player : String) : Nat := desk.log.count (.paused player)

def timesPlayed (desk : Desk) (player : String) : Nat := desk.log.count (.played player)

/-- Each pause is played again, waits to be, or is not recorded yet. -/
def Accounted (desk : Desk) : Prop :=
  ∀ player, desk.timesPaused player = desk.timesPlayed player + desk.hold.paused.count player
    + desk.beingRecorded player + toPlay desk.jobs player

theorem toPlay_append (jobs jobs' : List HoldStep) (player : String) :
    toPlay (jobs ++ jobs') player = toPlay jobs player + toPlay jobs' player := by
  unfold toPlay
  rw [List.map_append, List.sum_append]

theorem toPlay_cons (job : HoldStep) (jobs : List HoldStep) (player : String) :
    toPlay (job :: jobs) player = toPlay [job] player + toPlay jobs player :=
  toPlay_append [job] jobs player

theorem count_paused (players : List String) (player : String) :
    (players.map PlayerAction.paused).count (.paused player) = players.count player ∧
      (players.map PlayerAction.paused).count (.played player) = 0 := by
  refine ⟨List.count_map_of_injective players _ (fun a b h => PlayerAction.paused.inj h) player, ?_⟩
  rw [List.count_eq_zero]
  simp

theorem count_played (players : List String) (player : String) :
    (players.map PlayerAction.played).count (.played player) = players.count player ∧
      (players.map PlayerAction.played).count (.paused player) = 0 := by
  refine ⟨List.count_map_of_injective players _ (fun a b h => PlayerAction.played.inj h) player, ?_⟩
  rw [List.count_eq_zero]
  simp

variable {pauseMediaOnCall : Bool} {desk desk' : Desk} {op : HoldOp}

/-- Each pause is still accounted for. -/
theorem step_accounted (h : desk.Accounted) (hstep : desk.step pauseMediaOnCall op = some desk') :
    desk'.Accounted := by
  intro player
  have hbefore := h player
  unfold timesPaused timesPlayed beingRecorded at hbefore ⊢
  cases op with
  | call deviceId inCall =>
    have hcase := update_cases desk.hold deviceId inCall
    simp only [step, Option.some.injEq] at hstep
    generalize desk.hold.update deviceId inCall = updated at hcase hstep
    subst hstep
    cases hcase with
    | begins => simpa [toPlay_append, toPlay] using hbefore
    | ends =>
      rw [toPlay_append]
      simp only [toPlay, List.map_cons, List.map_nil, List.sum_cons, List.sum_nil, List.count_nil]
        at hbefore ⊢
      omega
    | goesOn => simpa [toPlay_append, toPlay] using hbefore
  | job players =>
    simp only [step] at hstep
    split at hstep
    · rename_i job jobs hnone hjobs
      cases hstep
      rw [hjobs, toPlay_cons, hnone] at hbefore
      cases job with
      | pause =>
        simp only [runJob]
        split
        · simpa [hnone, toPlay] using hbefore
        · obtain ⟨hpaused, hplayed⟩ := count_paused (pausePlaying players) player
          simp only [List.count_append, hpaused, hplayed, Option.getD_some]
          simp only [Option.getD_none, List.count_nil, toPlay, List.map_cons, List.map_nil,
            List.sum_cons, List.sum_nil] at hbefore ⊢
          omega
      | resume names =>
        obtain ⟨hplayed, hpaused⟩ := count_played names player
        simp only [runJob, List.count_append, hpaused, hplayed, hnone]
        simp only [Option.getD_none, List.count_nil, toPlay, List.map_cons, List.map_nil,
          List.sum_cons, List.sum_nil] at hbefore ⊢
        omega
      | nothing => simpa [runJob, hnone, toPlay] using hbefore
    · cases hstep
  | record =>
    simp only [step] at hstep
    split at hstep
    · rename_i paused hsome
      cases hstep
      rw [hsome] at hbefore
      simp only [MediaHold.record, List.count_append, Option.getD_some, Option.getD_none,
        List.count_nil] at hbefore ⊢
      omega
    · cases hstep

theorem run_accounted {ops : List HoldOp} (h : runFrom (step pauseMediaOnCall) {} ops = some desk) :
    desk.Accounted :=
  Lib.runFrom_invariant (I := Accounted) (fun _ _ _ h hstep => step_accounted h hstep)
    (fun player => by simp [timesPaused, timesPlayed, beingRecorded, toPlay]) h

/-! ### Records that come late -/

/-- Nobody is in a call, and no job waits or runs. -/
def Quiet (desk : Desk) : Prop :=
  desk.hold.inCall.isEmpty = true ∧ desk.jobs = [] ∧ desk.recording = none

/-- Everything paused was played again as often, and nothing is left. -/
def Restored (desk : Desk) : Prop :=
  desk.hold.paused = [] ∧ ∀ player, desk.timesPlayed player = desk.timesPaused player

theorem restored_iff (h : desk.Accounted) (hquiet : desk.Quiet) :
    desk.Restored ↔ desk.hold.paused = [] := by
  obtain ⟨-, hjobs, hrecording⟩ := hquiet
  refine ⟨And.left, fun hnone => ⟨hnone, fun player => ?_⟩⟩
  have haccount := h player
  unfold beingRecorded at haccount
  rw [hjobs, hrecording, hnone] at haccount
  simp only [Option.getD_none, List.count_nil, toPlay, List.map_nil, List.sum_nil] at haccount
  omega

@[simp] theorem hold_runJob (desk : Desk) (players : List Player) (job : HoldStep) :
    (desk.runJob pauseMediaOnCall players job).hold = desk.hold := by
  cases job with
  | pause =>
    simp only [runJob]
    split <;> rfl
  | resume _ => rfl
  | nothing => rfl

/-- The pause job records what it paused while nobody is in a call. -/
def Late (desk : Desk) (op : HoldOp) : Prop :=
  (∃ player players, desk.recording = some (player :: players)) ∧
    desk.hold.inCall.isEmpty = true ∧ op = .record

/-- After every late record a call begins. -/
def InTime (pauseMediaOnCall : Bool) (ops : List HoldOp) : Prop :=
  ∀ past op next mid, ops = past ++ op :: next →
    runFrom (step pauseMediaOnCall) {} past = some mid → mid.Late op →
    ∃ deviceId, HoldOp.call deviceId true ∈ next

/-- What is left while nobody is in a call was recorded late, or was left before. -/
theorem step_left (hstep : desk.step pauseMediaOnCall op = some desk')
    (hnone : desk'.hold.inCall.isEmpty = true) (hleft : desk'.hold.paused ≠ []) :
    desk.Late op ∨ desk.hold.inCall.isEmpty = true ∧ desk.hold.paused ≠ [] ∧
      ∀ deviceId, op ≠ .call deviceId true := by
  cases op with
  | call deviceId inCall =>
    have hcase := update_cases desk.hold deviceId inCall
    simp only [step, Option.some.injEq] at hstep
    generalize desk.hold.update deviceId inCall = updated at hcase hstep
    subst hstep
    cases hcase with
    | begins _ _ hcalls =>
      rw [hcalls] at hnone
      cases hnone
    | ends => exact absurd rfl hleft
    | goesOn _ _ hcalls hbefore =>
      have hsame := hcalls.symm.trans hnone
      refine .inr ⟨hsame, hleft, fun deviceId heq => ?_⟩
      cases heq
      cases hbefore hsame
  | job players =>
    simp only [step] at hstep
    split at hstep
    · cases hstep
      rename_i job _ _ _
      rw [hold_runJob] at hnone hleft
      exact .inr ⟨hnone, hleft, fun _ heq => by cases heq⟩
    · cases hstep
  | record =>
    simp only [step] at hstep
    split at hstep
    · rename_i paused hsome
      cases hstep
      cases paused with
      | nil =>
        rw [MediaHold.record, List.append_nil] at hleft
        exact .inr ⟨hnone, hleft, fun _ heq => by cases heq⟩
      | cons player players => exact .inl ⟨⟨player, players, hsome⟩, hnone, rfl⟩
    · cases hstep

/-- It stays until another call begins. -/
theorem step_stays (hstep : desk.step pauseMediaOnCall op = some desk')
    (hnone : desk.hold.inCall.isEmpty = true) (hleft : desk.hold.paused ≠ [])
    (hop : ∀ deviceId, op ≠ .call deviceId true) :
    desk'.hold.inCall.isEmpty = true ∧ desk'.hold.paused ≠ [] := by
  cases op with
  | call deviceId inCall =>
    have hcase := update_cases desk.hold deviceId inCall
    simp only [step, Option.some.injEq] at hstep
    generalize desk.hold.update deviceId inCall = updated at hcase hstep
    subst hstep
    cases hcase with
    | begins => exact absurd rfl (hop deviceId)
    | ends hsome =>
      rw [hnone] at hsome
      cases hsome
    | goesOn _ _ hcalls => exact ⟨hcalls.trans hnone, hleft⟩
  | job players =>
    simp only [step] at hstep
    split at hstep
    · cases hstep
      rename_i job _ _ _
      rw [hold_runJob]
      exact ⟨hnone, hleft⟩
    · cases hstep
  | record =>
    simp only [step] at hstep
    split at hstep
    · cases hstep
      exact ⟨hnone, fun h => hleft (List.append_eq_nil_iff.mp h).1⟩
    · cases hstep

theorem late_left (hstep : desk.step pauseMediaOnCall op = some desk') (hlate : desk.Late op) :
    desk'.hold.inCall.isEmpty = true ∧ desk'.hold.paused ≠ [] := by
  obtain ⟨⟨player, players, hsome⟩, hnone, rfl⟩ := hlate
  rw [step, hsome] at hstep
  cases hstep
  exact ⟨hnone, by simp [MediaHold.record]⟩

/-- Something is left while nobody is in a call exactly if a record was late and no
call began after it. -/
theorem left_iff {ops : List HoldOp} (h : runFrom (step pauseMediaOnCall) {} ops = some desk) :
    desk.hold.inCall.isEmpty = true ∧ desk.hold.paused ≠ [] ↔ ¬InTime pauseMediaOnCall ops := by
  induction ops using List.reverseRecOn generalizing desk with
  | nil =>
    cases h
    refine ⟨fun hleft => absurd rfl hleft.2, fun hlate => absurd ?_ hlate⟩
    intro past op next mid heq
    simp at heq
  | append_singleton past last ih =>
    obtain ⟨mid, hmid, hlast⟩ := runFrom_append_eq_some.mp h
    have hstep : mid.step pauseMediaOnCall last = some desk := by
      simpa [runFrom] using hlast
    constructor
    · rintro ⟨hnone, hleft⟩ hintime
      obtain hlate | ⟨hbefore, hleft', hop⟩ := step_left hstep hnone hleft
      · obtain ⟨_, hmem⟩ := hintime past last [] mid rfl hmid hlate
        cases hmem
      · -- What was left before is a late record of the past.
        refine (ih hmid).mp ⟨hbefore, hleft'⟩ ?_
        intro past' op next mid' heq hmid' hlate
        obtain ⟨deviceId, hmem⟩ := hintime past' op (next ++ [last]) mid' (by simp [heq]) hmid' hlate
        obtain hold | hnew := List.mem_append.mp hmem
        · exact ⟨deviceId, hold⟩
        · exact absurd (List.mem_singleton.mp hnew).symm (hop deviceId)
    · intro hlate
      unfold InTime at hlate
      push Not at hlate
      obtain ⟨past', op, next, mid', heq, hmid', hlate', hnext⟩ := hlate
      induction next using List.reverseRecOn with
      | nil =>
        obtain ⟨rfl, hop⟩ := List.append_inj' heq rfl
        rw [hmid] at hmid'
        cases hmid'
        cases hop
        exact late_left hstep hlate'
      | append_singleton next last' _ =>
        rw [← List.cons_append, ← List.append_assoc] at heq
        obtain ⟨heq', hop⟩ := List.append_inj' heq rfl
        cases hop
        have hleft := (ih hmid).mpr (fun hintime => by
          obtain ⟨deviceId, hmem⟩ := hintime past' op next mid' heq' hmid' hlate'
          exact hnext deviceId (List.mem_append_left _ hmem))
        exact step_stays hstep hleft.1 hleft.2
          (fun deviceId heq => hnext deviceId (by simp [heq]))

/-! ### Whole runs -/

/-- After every run, no player was played more often than it was paused. When it ends
quiet, everything paused was played again exactly if no record was late, but for those
before another call. -/
theorem music_resumed {ops : List HoldOp} {desk : Desk}
    (h : runFrom (step pauseMediaOnCall) {} ops = some desk) :
    (∀ player, desk.timesPlayed player ≤ desk.timesPaused player) ∧
      (desk.Quiet → (desk.Restored ↔ InTime pauseMediaOnCall ops)) := by
  have haccount := run_accounted h
  refine ⟨fun player => ?_, fun hquiet => ?_⟩
  · have := haccount player
    omega
  · rw [restored_iff haccount hquiet]
    have hiff := left_iff h
    rw [← not_iff_not, ← hiff]
    exact ⟨fun hleft => ⟨hquiet.1, hleft⟩, And.right⟩

/-- A player that is playing and lets itself be paused. -/
def musicPlayer : Player := ⟨"music", true, true, true⟩

/-- A call whose pause job ran before it ended. -/
def longCall : List HoldOp :=
  [.call "phone" true, .job [musicPlayer], .record, .call "phone" false, .job []]

/-- The call ended after its pause job ran. -/
theorem music_resumed_longCall : ∃ desk, runFrom (step true) {} longCall = some desk ∧
    desk.timesPlayed "music" ≤ desk.timesPaused "music" ∧
    (desk.Quiet → (desk.Restored ↔ InTime true longCall)) := by
  have hsome : (runFrom (step true) {} longCall).isSome = true := by decide +kernel
  obtain ⟨desk, hdesk⟩ := Option.isSome_iff_exists.mp hsome
  have hall := music_resumed hdesk
  exact ⟨desk, hdesk, hall.1 "music", hall.2⟩

/-- A call that is over before its pause job runs. -/
def shortCall : List HoldOp :=
  [.call "phone" true, .call "phone" false, .job [musicPlayer], .record, .job []]

/-- The resume job has nothing to play, and the music stays paused. -/
theorem short_call : ∃ desk, runFrom (step true) {} shortCall = some desk ∧ desk.Quiet ∧
    ¬desk.Restored ∧ desk.timesPaused "music" = 1 ∧ desk.timesPlayed "music" = 0 := by
  have hrun : (runFrom (step true) {} shortCall).any (fun desk =>
      desk.hold.inCall.isEmpty && (desk.jobs == [] && (desk.recording == none &&
        (desk.hold.paused == ["music"] && desk.log == [.paused "music"])))) = true := by
    decide +kernel
  obtain ⟨desk, hdesk, hall⟩ := (Option.any_eq_true _ _).mp hrun
  simp only [Bool.and_eq_true, beq_iff_eq] at hall
  obtain ⟨hnone, hjobs, hrecording, hpaused, hlog⟩ := hall
  refine ⟨desk, hdesk, ⟨hnone, hjobs, hrecording⟩, fun hrestored => ?_, ?_, ?_⟩
  · rw [hrestored.1] at hpaused
    cases hpaused
  · rw [timesPaused, hlog]
    decide
  · rw [timesPlayed, hlog]
    decide

end Desk

end DeskLink.Calls
