import DeskLink.Proofs.Folders.Renames

/-!
# `DeskLink.Proofs.Folders.Vectors`: what the version vectors know

* `applyScan_some`: what a scan does to the entry of one path.
* `tracks_iff`: every change advances the vector, unless a counter is at its
  end.
* `removed_iff`: when a path that is there again is removed by an old
  tombstone.
-/

set_option autoImplicit false

namespace DeskLink.Folders

/-! ### The order of vectors -/

namespace Vv

variable {a b : Vv}

theorem dominates_iff : a.dominates b = true ↔ b.desk ≤ a.desk ∧ b.phone ≤ a.phone ∧ a ≠ b := by
  simp [dominates, and_assoc]

/-- The counter of a side. -/
def own (self : Vv) : Side → UInt64
  | .desk => self.desk
  | .phone => self.phone

/-- The counter of the other side. -/
def other (self : Vv) : Side → UInt64
  | .desk => self.phone
  | .phone => self.desk

/-- The same vector, or one that dominates. -/
def Above (a b : Vv) : Prop := a = b ∨ a.dominates b = true

theorem above_iff : Above a b ↔ b.desk ≤ a.desk ∧ b.phone ≤ a.phone := by
  unfold Above
  rw [dominates_iff]
  constructor
  · rintro (rfl | ⟨hdesk, hphone, -⟩)
    · exact ⟨UInt64.le_refl _, UInt64.le_refl _⟩
    · exact ⟨hdesk, hphone⟩
  · rintro ⟨hdesk, hphone⟩
    by_cases heq : a = b
    · exact Or.inl heq
    · exact Or.inr ⟨hdesk, hphone, heq⟩

theorem not_dominates_self (a : Vv) : ¬a.dominates a = true := by
  rw [dominates_iff]
  exact fun h => h.2.2 rfl

theorem dominates_trans {c : Vv} (hab : a.dominates b = true) (hbc : b.dominates c = true) :
    a.dominates c = true := by
  rw [dominates_iff] at *
  obtain ⟨hab1, hab2, hne⟩ := hab
  obtain ⟨hbc1, hbc2, -⟩ := hbc
  refine ⟨UInt64.le_trans hbc1 hab1, UInt64.le_trans hbc2 hab2, ?_⟩
  rintro rfl
  apply hne
  cases a
  cases b
  simp only [Vv.mk.injEq]
  exact ⟨UInt64.le_antisymm hbc1 hab1, UInt64.le_antisymm hbc2 hab2⟩

/-- `max` is the least vector above both. -/
theorem above_max_iff {c : Vv} : Above c (a.max b) ↔ Above c a ∧ Above c b := by
  have hmax : ∀ x y z : UInt64, Max.max x y ≤ z ↔ x ≤ z ∧ y ≤ z := by
    intro x y z
    show (if x ≤ y then y else x) ≤ z ↔ x ≤ z ∧ y ≤ z
    simp only [UInt64.le_iff_toNat_le]
    split <;> omega
  simp only [above_iff, Vv.max, hmax]
  exact and_and_and_comm

end Vv

theorem saturatingSucc_eq {count : UInt64} (h : count ≠ 0xffffffffffffffff) :
    count < saturatingSucc count := by
  have hlt : count.toNat ≠ 2 ^ 64 - 1 := by
    intro heq
    exact h (UInt64.toNat_inj.mp heq)
  have hbound := count.toNat_lt
  unfold saturatingSucc
  rw [if_neg h, UInt64.lt_iff_toNat_lt, UInt64.toNat_add]
  show count.toNat < (count.toNat + 1) % 2 ^ 64
  omega

/-- A bump advances the own counter only, and not from its end. -/
theorem bumped_dominates_iff (vv : Vv) (side : Side) :
    (vv.bumped side).dominates vv = true ↔ vv.own side ≠ 0xffffffffffffffff := by
  rw [Vv.dominates_iff]
  cases side with
  | desk =>
    show vv.desk ≤ saturatingSucc vv.desk ∧ vv.phone ≤ vv.phone ∧ _ ↔ vv.desk ≠ _
    constructor
    · rintro ⟨-, -, hne⟩ hend
      apply hne
      show { vv with desk := saturatingSucc vv.desk } = vv
      unfold saturatingSucc
      rw [if_pos hend]
    · intro hend
      have hlt := saturatingSucc_eq hend
      refine ⟨UInt64.le_of_lt hlt, UInt64.le_refl _, fun heq => ?_⟩
      have hdesk : saturatingSucc vv.desk = vv.desk := congrArg Vv.desk heq
      exact UInt64.lt_irrefl _ (hdesk ▸ hlt)
  | phone =>
    show vv.desk ≤ vv.desk ∧ vv.phone ≤ saturatingSucc vv.phone ∧ _ ↔ vv.phone ≠ _
    constructor
    · rintro ⟨-, -, hne⟩ hend
      apply hne
      show { vv with phone := saturatingSucc vv.phone } = vv
      unfold saturatingSucc
      rw [if_pos hend]
    · intro hend
      have hlt := saturatingSucc_eq hend
      refine ⟨UInt64.le_refl _, UInt64.le_of_lt hlt, fun heq => ?_⟩
      have hphone : saturatingSucc vv.phone = vv.phone := congrArg Vv.phone heq
      exact UInt64.lt_irrefl _ (hphone ▸ hlt)

@[simp] theorem other_bumped (vv : Vv) (side : Side) : (vv.bumped side).other side = vv.other side := by
  cases side <;> rfl

/-! ### What a scan does to one path -/

/-- What a path is: a removal or not, a folder or not, and its content. -/
def Entry.state (e : Entry) : Bool × Bool × String := (e.deleted, e.dir, e.sha256)

/-- What is on the disk is not what the entry says: another kind, another
content, or gone. A file that cannot be read is not known to have changed. -/
def ChangedAt (stat : Option Stat) (sha : Option String) (old : Entry) : Prop :=
  match stat with
  | none => old.deleted = false
  | some stat =>
    if stat.dir then ¬(old.dir = true ∧ old.deleted = false)
    else
      ¬(old.deleted = false ∧ old.dir = false ∧ old.size = stat.size ∧ old.mtime = stat.mtime) ∧
        ∃ h, sha = some h ∧ ¬(old.deleted = false ∧ old.dir = false ∧ old.sha256 = h)

/-- What is on the disk is what the entry says. -/
def Agrees (stat : Option Stat) (old : Entry) : Prop :=
  match stat with
  | none => old.deleted = true
  | some stat => old.deleted = false ∧ old.dir = stat.dir ∧
      (stat.dir = true ∨ old.size = stat.size ∧ old.mtime = stat.mtime)

variable (side : Side) (hash : String → Option String) {path : String}

theorem applyFound_other (m : Manifest) (item : String × Stat) {a : String} (h : item.1 ≠ a) :
    (applyFound side hash m item)[a]? = m[a]? := by
  unfold applyFound
  simp only
  repeat' split
  all_goals simp [h]

/-- A known path that is found again. -/
theorem applyFound_some {m : Manifest} {stat : Stat} {old : Entry} (h : m[path]? = some old) :
    ∃ new, (applyFound side hash m (path, stat))[path]? = some new ∧
      (ChangedAt (some stat) (hash path) old →
        new.vv = old.vv.bumped side ∧ new.deleted = false ∧ new.state ≠ old.state) ∧
      (¬ChangedAt (some stat) (hash path) old →
        new = old ∨ (old.deleted = false ∧ ¬Agrees (some stat) old ∧
          new = { old with size := stat.size, mtime := stat.mtime })) := by
  unfold applyFound ChangedAt
  simp only [h]
  by_cases hdir : stat.dir = true
  · simp only [hdir, if_true]
    by_cases hthere : old.dir = true ∧ old.deleted = false
    · simp [hthere, h]
    · rw [if_neg (by simpa using hthere)]
      refine ⟨freshFolder (old.vv.bumped side), by simp, fun _ => ⟨rfl, rfl, ?_⟩, fun hn => absurd hthere hn⟩
      intro hstate
      apply hthere
      simp only [Entry.state, freshFolder, Prod.mk.injEq] at hstate
      exact ⟨hstate.2.1.symm, hstate.1.symm⟩
  · simp only [hdir, Bool.false_eq_true, if_false]
    by_cases hsame : old.deleted = false ∧ old.dir = false ∧ old.size = stat.size ∧
        old.mtime = stat.mtime
    · rw [if_pos (by simp [hsame])]
      exact ⟨old, h, fun hch => absurd hsame hch.1, fun _ => Or.inl rfl⟩
    · rw [if_neg (by simpa [and_assoc] using hsame)]
      cases hsha : hash path with
      | none =>
        refine ⟨old, h, ?_, fun _ => Or.inl rfl⟩
        rintro ⟨-, sha, hnone, -⟩
        cases hnone
      | some sha =>
        simp only
        by_cases hcontent : old.deleted = false ∧ old.dir = false ∧ old.sha256 = sha
        · rw [if_pos (by simp [hcontent])]
          refine ⟨_, by simp, ?_, fun _ => Or.inr ⟨hcontent.1, ?_, rfl⟩⟩
          · rintro ⟨-, sha', heq, hnot⟩
            cases heq
            exact absurd hcontent hnot
          · rintro ⟨hlive, hkind, hmeta⟩
            apply hsame
            refine ⟨hlive, hcontent.2.1, ?_⟩
            rcases hmeta with htrue | hmeta
            · exact absurd htrue hdir
            · exact hmeta
        · rw [if_neg (by simpa [and_assoc] using hcontent)]
          refine ⟨freshFile stat sha (old.vv.bumped side), by simp, fun _ => ⟨rfl, rfl, ?_⟩,
            fun hn => absurd ⟨hsame, sha, rfl, hcontent⟩ hn⟩
          intro hstate
          apply hcontent
          simp only [Entry.state, freshFile, Prod.mk.injEq] at hstate
          exact ⟨hstate.1.symm, hstate.2.1.symm, hstate.2.2.symm⟩

/-- A new path. -/
theorem applyFound_none {m : Manifest} {stat : Stat} (h : m[path]? = none) :
    (applyFound side hash m (path, stat))[path]? = none ∨
      ∃ new, (applyFound side hash m (path, stat))[path]? = some new ∧
        new.vv = ({} : Vv).bumped side ∧ new.deleted = false := by
  unfold applyFound
  simp only [h]
  split
  · split
    · exact Or.inr ⟨_, by rw [getElem?_keyInsert, if_pos rfl], rfl, rfl⟩
    · exact Or.inl h
  · cases hash path with
    | none => exact Or.inl h
    | some sha =>
      simp only
      split
      · exact Or.inl h
      · exact Or.inr ⟨_, by rw [getElem?_keyInsert, if_pos rfl], rfl, rfl⟩

/-- What a scan leaves of the entry of one path: a change bumps the vector, and
what did not change keeps its entry (or its state and vector, when only size
and time are new), unless it is a removal of long ago. -/
theorem applyScan_some (m : Manifest) (found : KeyMap Stat) (now : Int) {old : Entry}
    (h : m[path]? = some old) :
    (ChangedAt found[path]? (hash path) old ∧
      ∃ new, (applyScan side m found hash now)[path]? = some new ∧
        new.vv = old.vv.bumped side ∧ new.state ≠ old.state ∧
        new.deleted = !found.contains path) ∨
    (¬ChangedAt found[path]? (hash path) old ∧
      ((old.deleted = true ∧ old.mtime ≤ now - tombstoneDays * 24 * 3600 * 1000 ∧
          (applyScan side m found hash now)[path]? = none) ∨
        (applyScan side m found hash now)[path]? = some old ∨
        (¬Agrees found[path]? old ∧ ∃ stat : Stat, (applyScan side m found hash now)[path]?
          = some { old with size := stat.size, mtime := stat.mtime }))) := by
  -- What stays of an entry that did not vanish.
  have hkeep : ∀ e : Entry, found.contains path = true ∨ e.deleted = true →
      (found.toList.foldl (applyFound side hash) m)[path]? = some e →
      (applyScan side m found hash now)[path]?
        = if e.deleted = true ∧ e.mtime ≤ now - tombstoneDays * 24 * 3600 * 1000 then none
          else some e := by
    intro e hthere he
    have hstays : vanished side found now path e = e := by
      unfold vanished
      rw [if_neg]
      rcases hthere with hfound | hdead
      · simp [hfound]
      · simp [hdead]
    unfold applyScan
    simp only [getElem?_keyFilter, Std.ExtTreeMap.getElem?_map, he, Option.map_some, hstays]
    by_cases hold : e.deleted = true ∧ e.mtime ≤ now - tombstoneDays * 24 * 3600 * 1000
    · rw [if_pos hold]
      simp [hold]
    · rw [if_neg hold]
      have hnot : (!e.deleted || decide (now - tombstoneDays * 24 * 3600 * 1000 < e.mtime)) = true := by
        rw [not_and, not_le] at hold
        cases hdel : e.deleted with
        | false => rfl
        | true => simpa using hold hdel
      simp only [Option.filter_some, hnot, if_true]
  -- A whole scan is, for one path, its own step on a manifest that has the path's entry.
  have hrun := foldl_entries (k := path) (fun m item => applyFound_other side hash m item) found m
  cases hstat : found[path]? with
  | none =>
    rw [hstat] at hrun
    simp only [h] at hrun
    have hnot : found.contains path = false := by
      rw [Std.ExtTreeMap.contains_eq_isSome_getElem?, hstat]
      rfl
    cases hdel : old.deleted with
    | true =>
      right
      refine ⟨by simp [ChangedAt, hdel], ?_⟩
      rw [hkeep old (Or.inr hdel) hrun]
      split
      · rename_i hold
        exact Or.inl ⟨rfl, hold.2, rfl⟩
      · exact Or.inr (Or.inl rfl)
    | false =>
      left
      refine ⟨hdel, { old with deleted := true, size := 0, sha256 := "", mtime := now,
                               vv := old.vv.bumped side }, ?_, rfl, ?_, by simp [hnot]⟩
      · have hvanished : vanished side found now path old = { old with
            deleted := true, size := 0, sha256 := "", mtime := now, vv := old.vv.bumped side } := by
          unfold vanished
          rw [if_pos (by simp [hdel, hnot])]
        have hcutoff : now - tombstoneDays * 24 * 3600 * 1000 < now := by
          unfold tombstoneDays
          omega
        unfold applyScan
        simp only [getElem?_keyFilter, Std.ExtTreeMap.getElem?_map, hrun, Option.map_some, hvanished,
          Option.filter_some, Bool.not_true, Bool.false_or, hcutoff, decide_true, if_true]
      · simp [Entry.state, hdel]
  | some stat =>
    rw [hstat] at hrun
    obtain ⟨m', hm', hresult⟩ := hrun
    have hthere : found.contains path = true := by
      rw [Std.ExtTreeMap.contains_eq_isSome_getElem?, hstat]
      rfl
    obtain ⟨new, hnew, hchanged, hsame⟩ := @applyFound_some side hash _ _ stat _ (hm'.trans h)
    rw [hnew] at hresult
    have hend := hkeep new (Or.inl hthere) hresult
    by_cases hch : ChangedAt (some stat) (hash path) old
    · left
      obtain ⟨hvv, hlive, hstate⟩ := hchanged hch
      refine ⟨hch, new, ?_, hvv, hstate, by simp [hthere, hlive]⟩
      rw [hend, if_neg (by simp [hlive])]
    · right
      refine ⟨hch, ?_⟩
      rw [hend]
      rcases hsame hch with rfl | ⟨hlive, hnot, rfl⟩
      · split
        · rename_i hold
          exact Or.inl ⟨hold.1, hold.2, rfl⟩
        · exact Or.inr (Or.inl rfl)
      · rw [if_neg (by simp [hlive])]
        exact Or.inr (Or.inr ⟨hnot, stat, rfl⟩)

/-- A path the manifest does not have is new after a scan, or still not
there. -/
theorem applyScan_none (m : Manifest) (found : KeyMap Stat) (now : Int) (h : m[path]? = none) :
    (applyScan side m found hash now)[path]? = none ∨
      ∃ new, (applyScan side m found hash now)[path]? = some new ∧
        new.vv = ({} : Vv).bumped side ∧ new.deleted = false := by
  have hend : ∀ e, (found.toList.foldl (applyFound side hash) m)[path]? = e →
      (applyScan side m found hash now)[path]?
        = (e.map (vanished side found now path)).filter
            (fun entry => !entry.deleted || now - tombstoneDays * 24 * 3600 * 1000 < entry.mtime) := by
    intro e he
    unfold applyScan
    simp only [getElem?_keyFilter, Std.ExtTreeMap.getElem?_map, he]
  -- A whole scan is, for one path, its own step on a manifest that has the path's entry.
  have hrun := foldl_entries (k := path) (fun m item => applyFound_other side hash m item) found m
  cases hstat : found[path]? with
  | none =>
    rw [hstat] at hrun
    left
    rw [hend none (hrun.trans h)]
    rfl
  | some stat =>
    rw [hstat] at hrun
    obtain ⟨m', hm', hresult⟩ := hrun
    rcases @applyFound_none side hash _ _ stat (hm'.trans h) with
      hnone | ⟨new, hnew, hvv, hlive⟩
    · left
      rw [hend none (hresult.trans hnone)]
      rfl
    · right
      have hthere : found.contains path = true := by
        rw [Std.ExtTreeMap.contains_eq_isSome_getElem?, hstat]
        rfl
      have hstays : vanished side found now path new = new := by
        unfold vanished
        rw [if_neg (by simp [hthere])]
      refine ⟨new, ?_, hvv, hlive⟩
      rw [hend (some new) (hresult.trans hnew), Option.map_some, hstays, Option.filter_some, if_pos]
      simp [hlive]

/-! ### Every change is told apart -/

/-- The vector of a path before a scan. -/
def vvOf (before : Option Entry) : Vv := (before.map Entry.vv).getD {}

/-- One path before and after a scan. What is as the manifest says keeps its
entry (but for a removal of long ago), what is the same thing as before keeps
its vector, and what changed or is new gets one that dominates the old and
differs from it only in the counter of `side`. -/
structure Tracks (side : Side) (now : Int) (stat : Option Stat) (before after : Option Entry) :
    Prop where
  agrees : ∀ old, before = some old → Agrees stat old →
    after = some old ∨ (old.deleted = true ∧
      old.mtime ≤ now - tombstoneDays * 24 * 3600 * 1000 ∧ after = none)
  stays : ∀ old, before = some old → old.deleted = false → ∃ new, after = some new
  same : ∀ old new, before = some old → after = some new → new.state = old.state → new.vv = old.vv
  changed : ∀ new, after = some new → (∀ old, before = some old → new.state ≠ old.state) →
    new.vv.dominates (vvOf before) = true ∧ new.vv.other side = (vvOf before).other side

/-- A scan records the path truly unless it changed and its counter is full. -/
theorem tracks_iff (m : Manifest) (found : KeyMap Stat) (now : Int) (path : String) :
    Tracks side now found[path]? m[path]? (applyScan side m found hash now)[path]? ↔
      ∀ old, m[path]? = some old → ChangedAt found[path]? (hash path) old →
        old.vv.own side ≠ 0xffffffffffffffff := by
  cases hold : m[path]? with
  | none =>
    refine iff_of_true ?_ (fun old h => by cases h)
    rcases applyScan_none side hash m found now hold with hnone | ⟨new, hnew, hvv, -⟩
    · rw [hnone]
      exact ⟨fun _ h => (by cases h), fun _ h => (by cases h), fun _ _ h => (by cases h),
        fun _ h => (by cases h)⟩
    · rw [hnew]
      refine ⟨fun _ h => (by cases h), fun _ h => (by cases h), fun _ _ h => (by cases h), ?_⟩
      rintro e heq -
      cases heq
      rw [hvv]
      refine ⟨(bumped_dominates_iff {} side).mpr ?_, other_bumped _ side⟩
      cases side <;> decide
  | some old =>
    have hscan := applyScan_some side hash m found now hold
    rcases hscan with ⟨hch, new, hnew, hvv, hstate, -⟩ | ⟨hnch, hcases⟩
    · rw [hnew]
      constructor
      · rintro h old' heq -
        cases heq
        have hdom := (h.changed new rfl (fun old' heq => by cases heq; exact hstate)).1
        rw [hvv] at hdom
        exact (bumped_dominates_iff old.vv side).mp hdom
      · intro h
        have hfree := h old rfl hch
        refine ⟨?_, fun _ _ _ => ⟨new, rfl⟩, ?_, ?_⟩
        · -- What agrees has not changed.
          rintro old' heq hagrees
          cases heq
          exfalso
          cases hstat : found[path]? with
          | none =>
            rw [hstat] at hch hagrees
            exact Bool.false_ne_true (hch.symm.trans hagrees)
          | some stat =>
            rw [hstat] at hch hagrees
            obtain ⟨hlive, hdir, hmeta⟩ := hagrees
            unfold ChangedAt at hch
            simp only at hch
            split at hch
            · rename_i hd
              exact hch ⟨hdir.trans hd, hlive⟩
            · rename_i hd
              rcases hmeta with htrue | hmeta
              · exact hd htrue
              · exact hch.1 ⟨hlive, hdir.trans (by simpa using hd), hmeta⟩
        · rintro old' new' heq heq' hsame
          cases heq
          cases heq'
          exact absurd hsame hstate
        · rintro new' heq -
          cases heq
          show new.vv.dominates old.vv = true ∧ new.vv.other side = old.vv.other side
          rw [hvv]
          exact ⟨(bumped_dominates_iff old.vv side).mpr hfree, other_bumped _ side⟩
    · refine iff_of_true ?_ (fun old' heq hch => by cases heq; exact absurd hch hnch)
      rcases hcases with ⟨hdel, hlong, hnone⟩ | hkept | ⟨hnot, stat, htouched⟩
      · rw [hnone]
        refine ⟨?_, ?_, fun _ _ _ h => (by cases h), fun _ h => (by cases h)⟩
        · rintro old' heq -
          cases heq
          exact Or.inr ⟨hdel, hlong, rfl⟩
        · rintro old' heq hlive
          cases heq
          rw [hdel] at hlive
          cases hlive
      · rw [hkept]
        refine ⟨?_, fun _ _ _ => ⟨old, rfl⟩, ?_, ?_⟩
        · rintro old' heq -
          cases heq
          exact Or.inl rfl
        · rintro old' new' heq heq' -
          cases heq
          cases heq'
          rfl
        · rintro new' heq hne
          cases heq
          exact absurd rfl (hne old rfl)
      · rw [htouched]
        refine ⟨?_, fun _ _ _ => ⟨_, rfl⟩, ?_, ?_⟩
        · rintro old' heq hagrees
          cases heq
          exact absurd hagrees hnot
        · rintro old' new' heq heq' -
          cases heq
          cases heq'
          rfl
        · rintro new' heq hne
          cases heq
          exact absurd rfl (hne old rfl)

/-! ### A path that is there again -/

section Plan

variable (date : Int → Option String) (mine remote : Manifest) (phoneName : String)
variable {path : String} {theirs : Entry}

/-- The steps before moves and copies are found. -/
def firstPlan : List Step :=
  remote.toList.flatMap (fun (path, theirs) => planPath date side phoneName mine path theirs)

theorem plan_eq : plan date side mine remote phoneName
    = renamesByHash mine (firstPlan side date mine remote phoneName) := rfl

theorem mem_firstPlan {step : Step} : step ∈ firstPlan side date mine remote phoneName ↔
    ∃ path theirs, remote[path]? = some theirs ∧
      step ∈ planPath date side phoneName mine path theirs := by
  unfold firstPlan
  rw [List.mem_flatMap]
  constructor
  · rintro ⟨⟨path, theirs⟩, hmem, hstep⟩
    exact ⟨path, theirs, (mem_toList_iff remote (path, theirs)).mp hmem, hstep⟩
  · rintro ⟨path, theirs, hget, hstep⟩
    exact ⟨(path, theirs), (mem_toList_iff remote (path, theirs)).mpr hget, hstep⟩

/-- The steps of one path. -/
theorem planPath_cases {step : Step} (h : step ∈ planPath date side phoneName mine path theirs) :
    (∃ entry, step = .take path entry) ∨ step = .delete path theirs ∨
      (∃ entry, step = .download path entry) ∨ (∃ vv, step = .bump path vv) ∨
      (∃ copy, step = .rename path copy) ∨ ∃ copy, step = .conflict path copy := by
  unfold planPath at h
  simp only at h
  repeat' split at h
  all_goals
    simp only [List.mem_cons, List.not_mem_nil, or_false] at h
  all_goals grind

theorem unrewritten_firstPlan : Unrewritten (firstPlan side date mine remote phoneName) := by
  intro step hstep
  obtain ⟨path, theirs, -, hmem⟩ := (mem_firstPlan side date mine remote phoneName).mp hstep
  rcases planPath_cases side date mine phoneName hmem with
    ⟨_, rfl⟩ | rfl | ⟨_, rfl⟩ | ⟨_, rfl⟩ | ⟨_, rfl⟩ | ⟨_, rfl⟩ <;> trivial

/-- A delete is planned for a live path under a removal that dominates it. -/
theorem planPath_delete_iff {ours : Entry} (hours : mine[path]? = some ours)
    (hlive : ours.deleted = false) (hdead : theirs.deleted = true) {p : String} :
    (∃ entry, .delete p entry ∈ planPath date side phoneName mine path theirs) ↔
      p = path ∧ theirs.vv.dominates ours.vv = true := by
  unfold planPath
  simp only [hours, hlive, hdead]
  by_cases heq : ours.vv = theirs.vv
  · rw [if_pos heq]
    have hnot : ¬theirs.vv.dominates ours.vv = true := heq ▸ Vv.not_dominates_self _
    simp [hnot]
  · rw [if_neg heq]
    by_cases hdom : theirs.vv.dominates ours.vv = true
    · simp [hdom]
    · simp only [hdom, Bool.false_eq_true, if_false]
      by_cases hours' : ours.vv.dominates theirs.vv = true
      · simp [hours']
      · simp [hours']

theorem removed_iff {ours : Entry} (hours : mine[path]? = some ours) (hlive : ours.deleted = false)
    (htheirs : remote[path]? = some theirs) (hdead : theirs.deleted = true) :
    Removes (plan date side mine remote phoneName) path ↔ theirs.vv.dominates ours.vv = true := by
  rw [plan_eq, removes_iff (unrewritten_firstPlan side date mine remote phoneName)]
  simp only [mem_firstPlan]
  constructor
  · rintro ⟨entry, q, e, hget, hmem⟩
    have hq : path = q := by
      have hcases := planPath_cases side date mine phoneName hmem
      grind
    subst hq
    rw [htheirs] at hget
    cases hget
    exact ((planPath_delete_iff side date mine phoneName hours hlive hdead).mp ⟨entry, hmem⟩).2
  · intro hdom
    obtain ⟨entry, hmem⟩ :=
      (planPath_delete_iff side date mine phoneName hours hlive hdead (p := path)).mpr ⟨rfl, hdom⟩
    exact ⟨entry, path, theirs, htheirs, hmem⟩

end Plan

/-- What dominates the vector of a new path. -/
theorem dominates_first_iff (vv : Vv) :
    vv.dominates (({} : Vv).bumped side) = true ↔
      ¬(vv.own side = 0 ∨ vv = ({} : Vv).bumped side) := by
  rw [Vv.dominates_iff, not_or]
  have hone : ∀ c : UInt64, 1 ≤ c ↔ c ≠ 0 := by
    intro c
    rw [UInt64.le_iff_toNat_le, ne_eq, ← UInt64.toNat_inj]
    show 1 ≤ c.toNat ↔ ¬c.toNat = 0
    omega
  have hzero : ∀ c : UInt64, 0 ≤ c := fun c => UInt64.le_iff_toNat_le.mpr (Nat.zero_le _)
  cases side with
  | desk =>
    show 1 ≤ vv.desk ∧ 0 ≤ vv.phone ∧ _ ↔ ¬vv.desk = 0 ∧ _
    rw [hone]
    exact ⟨fun h => ⟨h.1, h.2.2⟩, fun h => ⟨h.1, hzero _, h.2⟩⟩
  | phone =>
    show 0 ≤ vv.desk ∧ 1 ≤ vv.phone ∧ _ ↔ ¬vv.phone = 0 ∧ _
    rw [hone]
    exact ⟨fun h => ⟨h.2.1, h.2.2⟩, fun h => ⟨hzero _, h.1, h.2⟩⟩

/-- What the vectors know: domination is a strict order whose join is `max`. A
scan keeps track of every change exactly when no changed path has its own
counter at the end. And a path that is there again, after its removal was
forgotten here, is safe from the other side's removal exactly when that never
counted a change of this side (or has just the vector of a new path). -/
theorem vectors_track (side : Side) (m : Manifest) (found : KeyMap Stat)
    (hash : String → Option String) (now : Int) :
    ((∀ a : Vv, ¬a.dominates a = true) ∧
      (∀ a b c : Vv, a.dominates b = true → b.dominates c = true → a.dominates c = true) ∧
      ∀ a b c : Vv, Vv.Above c (a.max b) ↔ Vv.Above c a ∧ Vv.Above c b) ∧
    ((∀ path : String,
        Tracks side now found[path]? m[path]? (applyScan side m found hash now)[path]?) ↔
      ∀ (path : String) (old : Entry), m[path]? = some old →
        ChangedAt found[path]? (hash path) old → old.vv.own side ≠ 0xffffffffffffffff) ∧
    ∀ (date : Int → Option String) (remote : Manifest) (phoneName path : String)
        (new tombstone : Entry),
      m[path]? = none → (applyScan side m found hash now)[path]? = some new →
      remote[path]? = some tombstone → tombstone.deleted = true →
      (¬Removes (plan date side (applyScan side m found hash now) remote phoneName) path ↔
        tombstone.vv.own side = 0 ∨ tombstone.vv = ({} : Vv).bumped side) := by
  refine ⟨⟨Vv.not_dominates_self, fun a b c => Vv.dominates_trans, fun a b c => Vv.above_max_iff⟩,
    ?_, ?_⟩
  · exact forall_congr' (fun path => tracks_iff side hash m found now path)
  · intro date remote phoneName path new tombstone hnone hnew hremote hdead
    rcases applyScan_none side hash m found now hnone with hnot | ⟨new', hnew', hvv, hlive⟩
    · rw [hnot] at hnew
      cases hnew
    · rw [hnew] at hnew'
      cases hnew'
      rw [removed_iff side date _ remote phoneName hnew hlive hremote hdead, hvv,
        dominates_first_iff, not_not]

/-- A scan that finds the file `a` where the manifest is empty. -/
theorem again_found :
    (applyScan .desk ∅ ((∅ : KeyMap Stat).insert "a" ⟨1, 5, false⟩) (fun _ => some "h") 9)["a"]?
      = some { size := 1, mtime := 5, sha256 := "h", vv := ⟨1, 0⟩ } := by
  decide +kernel

/-- The file stays when the other side alone knew it. -/
theorem vectors_track_again :
    ¬Removes (plan (fun _ => none) .desk
      (applyScan .desk ∅ ((∅ : KeyMap Stat).insert "a" ⟨1, 5, false⟩) (fun _ => some "h") 9)
      ((∅ : Manifest).insert "a" { deleted := true, vv := ⟨0, 2⟩ }) "phone") "a" := by
  have hremote : ((∅ : Manifest).insert "a" { deleted := true, vv := ⟨0, 2⟩ })["a"]?
      = some { deleted := true, vv := ⟨0, 2⟩ } := by simp
  exact ((vectors_track .desk ∅ _ _ 9).2.2 (fun _ => none) _ "phone" "a" _ _ (by simp) again_found
    hremote rfl).mpr (Or.inl rfl)

/-- A removal that had counted two changes here removes the file again. And a
change at the end of the counter leaves the vector as it is. -/
theorem vectors_lose_track :
    Removes (plan (fun _ => none) .desk
        (applyScan .desk ∅ ((∅ : KeyMap Stat).insert "a" ⟨1, 5, false⟩) (fun _ => some "h") 9)
        ((∅ : Manifest).insert "a" { deleted := true, vv := ⟨2, 0⟩ }) "phone") "a" ∧
      ∃ old new : Entry, (applyScan .desk
          ((∅ : Manifest).insert "a" old) ((∅ : KeyMap Stat).insert "a" ⟨1, 5, false⟩)
          (fun _ => some "h") 9)["a"]? = some new ∧
        new.sha256 ≠ old.sha256 ∧ new.vv = old.vv := by
  constructor
  · have hremote : ((∅ : Manifest).insert "a" { deleted := true, vv := ⟨2, 0⟩ })["a"]?
        = some { deleted := true, vv := ⟨2, 0⟩ } := by simp
    exact (removed_iff .desk (fun _ => none) _ _ "phone" again_found rfl hremote rfl).mpr (by decide)
  · refine ⟨{ sha256 := "g", vv := ⟨0xffffffffffffffff, 0⟩ },
      { size := 1, mtime := 5, sha256 := "h", vv := ⟨0xffffffffffffffff, 0⟩ }, ?_, by decide, rfl⟩
    decide +kernel

end DeskLink.Folders
