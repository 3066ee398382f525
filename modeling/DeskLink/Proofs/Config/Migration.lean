import DeskLink.Config.Migration
import DeskLink.Lib.Run

/-!
# `DeskLink.Proofs.Config.Migration`: no partial file is lost

`Sound` is what every run keeps whose steps are `Careful`: no copy has the name of a file of
the old folder, and the removal does not begin while the listing left out a file that is not
in the new folder. `migration_keeps` is what follows for every such run. A run in which
nothing fails (`Smooth`) leaves no old folder.
-/

set_option autoImplicit false

namespace DeskLink.Migration

open Lib (runFrom StepsMeet)

namespace World

variable {orig : KeyMap Contents} {w w' : World} {name : String} {contents source : Contents}
variable {makes moves parent removes : Bool}

/-- The file of this name in the new folder begins with the contents, or was there before,
with at least their length. -/
def Placed (w : World) (name : String) (contents : Contents) : Prop :=
  ∃ file, w.new[name]? = some file ∧
    (contents <+: file.contents ∨
      file.origin = .there ∧ contents.length ≤ file.contents.length)

/-- No file of the old folder is lost, and none has a copy that was cut off. -/
structure Kept (orig : KeyMap Contents) (w : World) : Prop where
  safe : ∀ (name : String) (contents : Contents), orig[name]? = some contents →
    w.old[name]? = some contents ∨ w.Placed name contents
  whole : ∀ (name : String) (file : File), name ∈ orig → w.new[name]? = some file →
    file.origin ≠ .unfinished

/-- The entries of the listing that are through are in the new folder. -/
def Through (orig : KeyMap Contents) (w : World) (listed todo : List String) : Prop :=
  ∀ name ∈ listed, name ∉ todo → ∀ contents : Contents, orig[name]? = some contents →
    w.Placed name contents

/-- What is known at each place of a run. -/
def InPhase (orig : KeyMap Contents) (w : World) : Prop :=
  match w.phase with
  | .idle | .listing => True
  | .walking listed todo allCopied => allCopied = true → Through orig w listed todo
  | .copying name listed todo allCopied =>
    orig[staged name]? = none ∧ (allCopied = true → Through orig w listed (name :: todo))
  | .placing name listed todo allCopied =>
    orig[staged name]? = none ∧ (allCopied = true → Through orig w listed (name :: todo)) ∧
      w.new[staged name]?.map File.contents = w.old[name]?
  | .removing => ∀ (name : String) (contents : Contents), orig[name]? = some contents →
    w.Placed name contents

structure Sound (orig : KeyMap Contents) (w : World) : Prop where
  same : ∀ (name : String) (contents : Contents), w.old[name]? = some contents → orig[name]? = some contents
  safe : ∀ (name : String) (contents : Contents), orig[name]? = some contents →
    w.old[name]? = some contents ∨ w.Placed name contents
  whole : ∀ (name : String) (contents : Contents) (file : File), orig[name]? = some contents →
    w.new[name]? = some file → file.origin ≠ .unfinished ∧ (file.origin = .copied → contents <+: file.contents)
  /-- The new folder is there when a run has come to the entries. -/
  there : w.newThere = true ∨ w.new = ∅ ∧ w.phase = .idle
  inPhase : InPhase orig w

/-- A copy is not made under the name of a file of the old folder. Of what the listing left
out, each file has one of at least its length in the new folder before the removal. -/
def Careful (orig : KeyMap Contents) (w : World) : MoveStep → Prop
  | .next isFile sees _ _ => ∀ (name : String) (listed todo : List String) (allCopied : Bool)
    (source : Contents), w.phase = .walking listed (name :: todo) allCopied → w.old[name]? = some source →
    isFile = true → (sees && w.longEnough name source) = false → orig[staged name]? = none
  | .finish => ∀ listed, w.phase = .walking listed [] true →
    ∀ (name : String) (source : Contents), w.old[name]? = some source → name ∉ listed →
      w.longEnough name source = true
  | .start .. | .list _ | .write _ | .fail _ | .verify | .place .. | .remove _ | .removed | .stop
  | .grow .. => True

/-! ### Placed files -/

/-- Of a file of the old folder the new folder has none of a copy at work, so one that is
long enough will do. -/
theorem Sound.placed (h : Sound orig w) (hname : orig[name]? = some contents)
    (hlong : w.longEnough name contents = true) : w.Placed name contents := by
  obtain ⟨file, hfile, hlength⟩ := (Option.any_eq_true _ _).mp hlong
  rw [decide_eq_true_eq] at hlength
  obtain ⟨hwhole, hcopied⟩ := h.whole name contents file hname hfile
  refine ⟨file, hfile, ?_⟩
  cases horigin : file.origin with
  | there => exact .inr ⟨rfl, hlength⟩
  | copied => exact .inl (hcopied horigin)
  | unfinished => exact absurd horigin hwhole

/-- What changes no file of the old folder's names changes none that is placed. -/
theorem Placed.congr (h : w.Placed name contents) (hnew : w'.new[name]? = w.new[name]?) :
    w'.Placed name contents := by
  obtain ⟨file, hfile, hplaced⟩ := h
  exact ⟨file, hnew.trans hfile, hplaced⟩

theorem Through.congr {listed todo : List String} (h : Through orig w listed todo)
    (hnew : ∀ name : String, name ∈ orig → w'.new[name]? = w.new[name]?) :
    Through orig w' listed todo := by
  intro name hlisted htodo contents hname
  exact (h name hlisted htodo contents hname).congr
    (hnew name (Std.ExtTreeMap.mem_iff_isSome_getElem?.mpr (by rw [hname]; rfl)))

/-- The other files of the new folder are as they were. -/
theorem Sound.aside (h : Sound orig w) (hold : w'.old = w.old)
    (hnew : ∀ name : String, name ∈ orig → w'.new[name]? = w.new[name]?)
    (hthere : w'.newThere = true ∨ w'.new = ∅ ∧ w'.phase = .idle) (hphase : InPhase orig w') :
    Sound orig w' := by
  have hmem {name : String} {contents : Contents} (hname : orig[name]? = some contents) :
      name ∈ orig := Std.ExtTreeMap.mem_iff_isSome_getElem?.mpr (by rw [hname]; rfl)
  refine ⟨fun name contents hsome => ?_, fun name contents hname => ?_,
    fun name contents file hname hfile => ?_, hthere, hphase⟩
  · rw [hold] at hsome
    exact h.same name contents hsome
  · rw [hold]
    exact (h.safe name contents hname).imp id (fun hplaced =>
      hplaced.congr (hnew name (hmem hname)))
  · rw [hnew name (hmem hname)] at hfile
    exact h.whole name contents file hname hfile

/-- A step that leaves the folders alone. -/
theorem Sound.phase (h : Sound orig w) (hold : w'.old = w.old) (hnew : w'.new = w.new)
    (hthere : w'.newThere = true ∨ w'.new = ∅ ∧ w'.phase = .idle) (hphase : InPhase orig w') :
    Sound orig w' :=
  h.aside hold (fun name _ => by rw [hnew]) hthere hphase

theorem Sound.underway (h : Sound orig w) (hphase : w.phase ≠ .idle) : w.newThere = true :=
  h.there.resolve_right (fun hidle => hphase hidle.2)

theorem getElem?_dropStaged (h : orig[staged name]? = none) (removes : Bool) {other : String}
    (hother : other ∈ orig) : (w.dropStaged name removes)[other]? = w.new[other]? := by
  unfold dropStaged
  split
  · rw [getElem?_keyErase, if_neg]
    rintro rfl
    exact absurd h (by simpa using Std.ExtTreeMap.mem_iff_isSome_getElem?.mp hother)
  · rfl

theorem ne_staged (h : orig[staged name]? = none) {other : String} (hother : other ∈ orig) :
    staged name ≠ other := by
  rintro rfl
  rw [Std.ExtTreeMap.mem_iff_isSome_getElem?, h] at hother
  cases hother

/-! ### Steps -/

/-- The move starts, or starts again. -/
theorem start_sound (h : Sound orig w) (hstep : w.step (.start parent moves makes) = some w') :
    Sound orig w' := by
  simp only [step] at hstep
  split at hstep
  · rename_i hidle
    split at hstep
    · split at hstep
      · -- The folder is renamed as a whole.
        rename_i hmoves
        cases hstep
        have hthere : w.newThere = false := by
          rw [Bool.and_eq_true, Bool.not_eq_true'] at hmoves
          exact hmoves.1
        have hempty : w.new = ∅ := by
          refine (h.there.resolve_left (fun htrue => ?_)).1
          rw [hthere] at htrue
          cases htrue
        have hold (name : String) (contents : Contents) (hname : orig[name]? = some contents) :
            w.old[name]? = some contents := by
          refine (h.safe name contents hname).resolve_right ?_
          rintro ⟨file, hfile, -⟩
          rw [hempty, Std.ExtTreeMap.getElem?_empty] at hfile
          cases hfile
        refine ⟨fun name contents hnone => ?_, fun name contents hname => .inr ?_,
          fun name contents file hname hfile => ?_, .inl rfl, ?_⟩
        · have hnone : (∅ : KeyMap Contents)[name]? = some contents := hnone
          rw [Std.ExtTreeMap.getElem?_empty] at hnone
          cases hnone
        · refine ⟨⟨contents, .copied⟩, ?_, .inl (List.prefix_refl _)⟩
          rw [Std.ExtTreeMap.getElem?_map, hold name contents hname]
          rfl
        · have hfile : (w.old.map (fun _ contents => (⟨contents, .copied⟩ : File)))[name]?
              = some file := hfile
          rw [Std.ExtTreeMap.getElem?_map, hold name contents hname] at hfile
          cases hfile
          exact ⟨nofun, fun _ => List.prefix_refl _⟩
        · rw [InPhase, hidle]
          trivial
      · split at hstep
        · cases hstep
          exact h.phase rfl rfl (.inl rfl) trivial
        · cases hstep
          exact h
    · cases hstep
      exact h
  · cases hstep

theorem next_sound {isFile sees opens : Bool} (h : Sound orig w)
    (hcareful : Careful orig w (.next isFile sees opens removes))
    (hstep : w.step (.next isFile sees opens removes) = some w') : Sound orig w' := by
  simp only [step] at hstep
  split at hstep
  · rename_i listed name todo allCopied hphase
    have hthrough := h.inPhase
    rw [InPhase, hphase] at hthrough
    have hthere : w.newThere = true := h.underway (by rw [hphase]; nofun)
    split at hstep
    · cases hstep
    · rename_i source hsource
      have hname : orig[name]? = some source := h.same name source hsource
      split at hstep
      · cases hstep
        exact h.phase rfl rfl (.inl hthere) (fun hfalse => Bool.noConfusion hfalse)
      · rename_i hfile
        have hfile : isFile = true := by simpa using hfile
        split at hstep
        · -- The target is long enough.
          rename_i hlong
          rw [Bool.and_eq_true] at hlong
          cases hstep
          refine h.phase rfl rfl (.inl hthere) (fun hall other hlisted htodo contents hother => ?_)
          by_cases heq : other = name
          · subst heq
            rw [hname] at hother
            cases hother
            exact (h.placed hname hlong.2).congr rfl
          · exact (hthrough hall other hlisted
              (fun hmem => (List.mem_cons.mp hmem).elim heq htodo) contents hother).congr rfl
        · rename_i hshort
          have hstaged : orig[staged name]? = none := hcareful name listed todo allCopied source
            hphase hsource hfile (Bool.eq_false_of_not_eq_true hshort)
          split at hstep
          · cases hstep
            have hnew : ∀ other : String, other ∈ orig →
                (w.new.insert (staged name) (⟨[], .unfinished⟩ : File))[other]? = w.new[other]? :=
              fun other hother => by rw [getElem?_keyInsert, if_neg (ne_staged hstaged hother)]
            exact h.aside rfl hnew (.inl hthere)
              ⟨hstaged, fun hall => (hthrough hall).congr hnew⟩
          · cases hstep
            have hnew : ∀ other : String, other ∈ orig →
                (w.dropStaged name removes)[other]? = w.new[other]? :=
              fun other hother => getElem?_dropStaged hstaged removes hother
            exact h.aside rfl hnew (.inl hthere) (fun hfalse => Bool.noConfusion hfalse)
  · cases hstep

theorem write_sound {more : Nat} (h : Sound orig w) (hstep : w.step (.write more) = some w') :
    Sound orig w' := by
  simp only [step] at hstep
  split at hstep
  · rename_i name listed todo allCopied hphase
    have hcopying := h.inPhase
    rw [InPhase, hphase] at hcopying
    obtain ⟨hstaged, hthrough⟩ := hcopying
    split at hstep
    · rename_i source file hsource hfile
      cases hstep
      have hnew : ∀ other : String, other ∈ orig →
          (w.new.insert (staged name)
            (⟨source.take (file.contents.length + more), .unfinished⟩ : File))[other]?
              = w.new[other]? :=
        fun other hother => by rw [getElem?_keyInsert, if_neg (ne_staged hstaged hother)]
      refine h.aside rfl hnew (.inl (h.underway (by rw [hphase]; nofun))) ?_
      rw [InPhase, hphase]
      exact ⟨hstaged, fun hall => (hthrough hall).congr hnew⟩
    · cases hstep
  · cases hstep

theorem fail_sound (h : Sound orig w) (hstep : w.step (.fail removes) = some w') :
    Sound orig w' := by
  simp only [step] at hstep
  split at hstep
  · rename_i name listed todo allCopied hphase
    have hcopying := h.inPhase
    rw [InPhase, hphase] at hcopying
    cases hstep
    exact h.aside rfl (fun other hother => getElem?_dropStaged hcopying.1 removes hother)
      (.inl (h.underway (by rw [hphase]; nofun)))
      (fun hfalse => Bool.noConfusion hfalse)
  · cases hstep

theorem verify_sound (h : Sound orig w) (hstep : w.step .verify = some w') : Sound orig w' := by
  simp only [step] at hstep
  split at hstep
  · rename_i name listed todo allCopied hphase
    have hcopying := h.inPhase
    rw [InPhase, hphase] at hcopying
    split at hstep
    · rename_i hsame
      cases hstep
      exact h.phase rfl rfl (.inl (h.underway (by rw [hphase]; nofun)))
        ⟨hcopying.1, fun hall => (hcopying.2 hall).congr (fun _ _ => rfl), hsame.symm⟩
    · cases hstep
  · cases hstep

/-- A verified file takes its name. -/
theorem place_sound {renames : Bool} (h : Sound orig w)
    (hstep : w.step (.place renames removes) = some w') : Sound orig w' := by
  simp only [step] at hstep
  split at hstep
  · rename_i name listed todo allCopied hphase
    have hplacing := h.inPhase
    rw [InPhase, hphase] at hplacing
    obtain ⟨hstaged, hthrough, hcopy⟩ := hplacing
    have hthere : w.newThere = true := h.underway (by rw [hphase]; nofun)
    split at hstep
    · split at hstep
      · rename_i file hfile
        cases hstep
        rw [hfile] at hcopy
        have hold : w.old[name]? = some file.contents := hcopy.symm
        have hname := h.same name file.contents hold
        have hnew (other : String) (hother : other ∈ orig) :
            ((w.new.erase (staged name)).insert name { file with origin := .copied })[other]?
              = if name = other then some { file with origin := .copied } else w.new[other]? := by
          rw [getElem?_keyInsert, getElem?_keyErase, if_neg (ne_staged hstaged hother)]
        have hmem {other : String} {contents : Contents} (h : orig[other]? = some contents) :
            other ∈ orig := Std.ExtTreeMap.mem_iff_isSome_getElem?.mpr (by rw [h]; rfl)
        -- The name now has the whole copy, and the others what they had.
        have hplaced (other : String) (contents : Contents) (hother : orig[other]? = some contents)
            (hbefore : other ≠ name → w.Placed other contents) : World.Placed { w with
              new := (w.new.erase (staged name)).insert name { file with origin := .copied }
              phase := .walking listed todo allCopied } other contents := by
          by_cases heq : name = other
          · subst heq
            rw [hname] at hother
            cases hother
            exact ⟨_, (hnew name (hmem hname)).trans (if_pos rfl), .inl (List.prefix_refl _)⟩
          · exact (hbefore (Ne.symm heq)).congr ((hnew other (hmem hother)).trans (if_neg heq))
        refine ⟨h.same, fun other contents hother => ?_, fun other contents f hother hf => ?_,
          .inl hthere, fun hall other hlisted htodo contents hother => ?_⟩
        · by_cases heq : other = name
          · exact .inr (hplaced other contents hother (fun hne => absurd heq hne))
          · exact (h.safe other contents hother).imp id
              (fun hp => hplaced other contents hother (fun _ => hp))
        · have hat := (hnew other (hmem hother)).symm.trans hf
          by_cases heq : name = other
          · subst heq
            rw [if_pos rfl] at hat
            cases hat
            rw [hname] at hother
            cases hother
            exact ⟨nofun, fun _ => List.prefix_refl _⟩
          · rw [if_neg heq] at hat
            exact h.whole other contents f hother hat
        · exact hplaced other contents hother (fun hne => hthrough hall other hlisted
            (fun hin => (List.mem_cons.mp hin).elim hne htodo) contents hother)
      · cases hstep
    · cases hstep
      exact h.aside rfl (fun other hother => getElem?_dropStaged hstaged removes hother)
        (.inl hthere) (fun hfalse => Bool.noConfusion hfalse)
  · cases hstep

theorem finish_sound (h : Sound orig w) (hcareful : Careful orig w .finish)
    (hstep : w.step .finish = some w') : Sound orig w' := by
  simp only [step] at hstep
  split at hstep
  · rename_i listed allCopied hphase
    have hwalking := h.inPhase
    rw [InPhase, hphase] at hwalking
    have hthere : w.newThere = true := h.underway (by rw [hphase]; nofun)
    cases hstep
    cases allCopied with
    | false => exact h.phase rfl rfl (.inl hthere) trivial
    | true =>
      refine h.phase rfl rfl (.inl hthere) (fun name contents hname => ?_)
      obtain hold | hplaced := h.safe name contents hname
      · by_cases hlisted : name ∈ listed
        · exact (hwalking rfl name hlisted List.not_mem_nil contents hname).congr rfl
        · exact (h.placed hname (hcareful listed hphase name contents hold hlisted)).congr rfl
      · exact hplaced.congr rfl
  · cases hstep

theorem remove_sound {gone : String} (h : Sound orig w) (hstep : w.step (.remove gone) = some w') :
    Sound orig w' := by
  simp only [step] at hstep
  split at hstep
  · rename_i hphase
    have hremoving := h.inPhase
    rw [InPhase, hphase] at hremoving
    cases hstep
    refine ⟨fun name contents hold => ?_, fun name contents hname => .inr ?_, h.whole, h.there, ?_⟩
    · have hold : (w.old.erase gone)[name]? = some contents := hold
      rw [getElem?_keyErase] at hold
      split at hold
      · cases hold
      · exact h.same name contents hold
    · exact (hremoving name contents hname).congr rfl
    · rw [InPhase, hphase]
      exact fun name contents hname => (hremoving name contents hname).congr rfl
  · cases hstep

theorem grow_sound {grown : String} {more : Contents} (h : Sound orig w)
    (hstep : w.step (.grow grown more) = some w') : Sound orig w' := by
  simp only [step] at hstep
  split at hstep
  · rename_i hidle
    rw [Option.map_eq_some_iff] at hstep
    obtain ⟨file, hfile, rfl⟩ := hstep
    have hnew (other : String) :
        (w.new.insert grown { file with contents := file.contents ++ more })[other]?
          = if grown = other then some { file with contents := file.contents ++ more }
            else w.new[other]? := getElem?_keyInsert ..
    refine ⟨h.same, fun name contents hname => ?_, fun name contents f hname hf => ?_, ?_, ?_⟩
    · refine (h.safe name contents hname).imp id ?_
      rintro ⟨f, hf, hplaced⟩
      by_cases heq : grown = name
      · subst heq
        rw [hfile] at hf
        cases hf
        refine ⟨_, (hnew grown).trans (if_pos rfl), ?_⟩
        refine hplaced.imp (fun hprefix => hprefix.trans (List.prefix_append _ _)) ?_
        rintro ⟨horigin, hlength⟩
        refine ⟨horigin, ?_⟩
        rw [List.length_append]
        omega
      · exact ⟨f, ((hnew name).trans (if_neg heq)).trans hf, hplaced⟩
    · have hat := (hnew name).symm.trans hf
      by_cases heq : grown = name
      · subst heq
        rw [if_pos rfl] at hat
        cases hat
        obtain ⟨hwhole, hcopied⟩ := h.whole grown contents file hname hfile
        exact ⟨hwhole, fun horigin => (hcopied horigin).trans (List.prefix_append _ _)⟩
      · rw [if_neg heq] at hat
        exact h.whole name contents f hname hat
    · refine .inl (h.there.resolve_right (fun hempty => ?_))
      rw [hempty.1, Std.ExtTreeMap.getElem?_empty] at hfile
      cases hfile
    · rw [InPhase, hidle]
      trivial
  · cases hstep

theorem step_sound {a : MoveStep} (h : Sound orig w) (hcareful : Careful orig w a)
    (hstep : w.step a = some w') : Sound orig w' := by
  cases a with
  | start parent moves makes => exact start_sound h hstep
  | list names =>
    simp only [step] at hstep
    split at hstep
    · rename_i hlist
      cases hstep
      refine h.phase rfl rfl (.inl (h.underway (by rw [hlist.1]; nofun))) ?_
      exact fun _ name hlisted htodo => absurd hlisted htodo
    · cases hstep
  | next isFile sees opens removes => exact next_sound h hcareful hstep
  | write more => exact write_sound h hstep
  | fail removes => exact fail_sound h hstep
  | verify => exact verify_sound h hstep
  | place renames removes => exact place_sound h hstep
  | finish => exact finish_sound h hcareful hstep
  | remove name => exact remove_sound h hstep
  | removed =>
    simp only [step] at hstep
    split at hstep
    · rename_i hremoving
      cases hstep
      exact h.phase rfl rfl
        (.inl (h.underway (by rw [hremoving.1]; nofun))) trivial
    · cases hstep
  | stop =>
    cases hstep
    exact h.phase rfl rfl (h.there.imp id (fun hempty => ⟨hempty.1, rfl⟩)) trivial
  | grow name more => exact grow_sound h hstep

theorem before_sound (old : KeyMap Contents) (new : Option (KeyMap Contents)) :
    Sound old (before old new) where
  same _ _ h := h
  safe _ _ h := .inl h
  whole name contents file _ hfile := by
    have hfile : ((new.getD ∅).map (fun _ contents => (⟨contents, .there⟩ : File)))[name]?
        = some file := hfile
    rw [Std.ExtTreeMap.getElem?_map, Option.map_eq_some_iff] at hfile
    obtain ⟨contents, -, rfl⟩ := hfile
    exact ⟨nofun, nofun⟩
  there := by
    cases new with
    | some new => exact .inl rfl
    | none =>
      refine .inr ⟨Std.ExtTreeMap.ext_getElem? (fun name => ?_), rfl⟩
      show ((∅ : KeyMap Contents).map (fun _ contents => (⟨contents, .there⟩ : File)))[name]?
        = (∅ : KeyMap File)[name]?
      rw [Std.ExtTreeMap.getElem?_map, Std.ExtTreeMap.getElem?_empty,
        Std.ExtTreeMap.getElem?_empty]
      rfl
  inPhase := trivial

theorem Sound.kept (h : Sound orig w) : Kept orig w where
  safe := h.safe
  whole name file hname hfile := by
    obtain ⟨contents, hcontents⟩ := Option.isSome_iff_exists.mp
      (Std.ExtTreeMap.mem_iff_isSome_getElem?.mp hname)
    exact (h.whole name contents file hcontents hfile).1

/-! ### A run in which nothing fails -/

/-- The step works. Renaming the old folder need not, since the new one may be on another
disk. -/
def Smooth (w : World) : MoveStep → Prop
  | .start parent _ makes => parent = true ∧ makes = true
  | .list names => ∀ name ∈ w.old, name ∈ names
  | .next isFile sees opens _ => isFile = true ∧ sees = true ∧ opens = true
  | .place renames _ => renames = true
  | .fail _ | .stop => False
  | .write _ | .verify | .finish | .remove _ | .removed | .grow .. => True

/-- A run is at work and all of its copies went well, or there is no old folder. -/
def Clean (w : World) : Prop :=
  match w.phase with
  | .idle => w.oldThere = false
  | .listing | .removing => True
  | .walking _ _ allCopied | .copying _ _ _ allCopied | .placing _ _ _ allCopied =>
    allCopied = true

theorem start_clean (hsmooth : w.Smooth (.start parent moves makes))
    (hstep : w.step (.start parent moves makes) = some w') : w'.Clean := by
  obtain ⟨rfl, rfl⟩ := hsmooth
  simp only [step, Bool.and_true, if_true] at hstep
  split at hstep
  · rename_i hidle
    split at hstep
    · split at hstep
      · cases hstep
        rw [Clean, hidle]
      · cases hstep
        trivial
    · rename_i hgone
      cases hstep
      rw [Clean, hidle]
      exact Bool.eq_false_of_not_eq_true hgone
  · cases hstep

/-- A smooth step keeps the run clean. -/
theorem step_clean {a : MoveStep} (h : w.Clean) (hsmooth : w.Smooth a)
    (hstep : w.step a = some w') : w'.Clean := by
  cases a with
  | start parent moves makes => exact start_clean hsmooth hstep
  | list names =>
    simp only [step] at hstep
    split at hstep
    · cases hstep
      rfl
    · cases hstep
  | next isFile sees opens removes =>
    obtain ⟨rfl, rfl, rfl⟩ := hsmooth
    simp only [step] at hstep
    split at hstep
    · rename_i hphase
      rw [Clean, hphase] at h
      split at hstep
      · cases hstep
      · split at hstep
        · rename_i hfalse
          cases hfalse
        · split at hstep
          · cases hstep
            exact h
          · split at hstep
            · cases hstep
              exact h
            · rename_i hfalse
              exact absurd trivial hfalse
    · cases hstep
  | write more =>
    simp only [step] at hstep
    split at hstep
    · rename_i hphase
      rw [Clean, hphase] at h
      split at hstep
      · cases hstep
        rw [Clean, hphase]
        exact h
      · cases hstep
    · cases hstep
  | fail removes => cases hsmooth
  | verify =>
    simp only [step] at hstep
    split at hstep
    · rename_i hphase
      rw [Clean, hphase] at h
      split at hstep
      · cases hstep
        exact h
      · cases hstep
    · cases hstep
  | place renames removes =>
    have hrenames : renames = true := hsmooth
    subst hrenames
    simp only [step, if_true] at hstep
    split at hstep
    · rename_i hphase
      rw [Clean, hphase] at h
      split at hstep
      · cases hstep
        exact h
      · cases hstep
    · cases hstep
  | finish =>
    simp only [step] at hstep
    split at hstep
    · rename_i hphase
      rw [Clean, hphase] at h
      cases hstep
      rw [h]
      trivial
    · cases hstep
  | remove name =>
    simp only [step] at hstep
    split at hstep
    · rename_i hphase
      cases hstep
      rw [Clean, hphase]
      trivial
    · cases hstep
  | removed =>
    simp only [step] at hstep
    split at hstep
    · cases hstep
      rfl
    · cases hstep
  | stop => cases hsmooth
  | grow name more =>
    simp only [step] at hstep
    split at hstep
    · rename_i hidle
      rw [Option.map_eq_some_iff] at hstep
      obtain ⟨file, -, rfl⟩ := hstep
      rw [Clean, hidle] at h ⊢
      exact h
    · cases hstep

/-- A run in which nothing fails leaves no old folder. -/
theorem smooth_run {rest : List MoveStep}
    (hsmooth : StepsMeet step Smooth w (.start parent moves makes :: rest))
    (hrun : runFrom step w (.start parent moves makes :: rest) = some w')
    (hidle : w'.phase = .idle) : w'.oldThere = false := by
  obtain ⟨m, hstart, hrest⟩ := Lib.runFrom_cons_eq_some.mp hrun
  have hclean : w'.Clean :=
    Lib.runFrom_invariant_of_steps (I := Clean) (fun _ _ _ h hC hstep => step_clean h hC hstep)
      (start_clean hsmooth.1 hstart) (hsmooth.2 m hstart) hrest
  rw [Clean, hidle] at hclean
  exact hclean

/-- After every run of careful steps no file of the old folder is lost and none has a copy
that was cut off. A run in which nothing fails leaves no old folder. -/
theorem migration_keeps {old : KeyMap Contents} {new : Option (KeyMap Contents)}
    {steps : List MoveStep} (hrun : runFrom step (before old new) steps = some w)
    (hcareful : StepsMeet step (Careful old) (before old new) steps) :
    Kept old w ∧ ∀ parent moves makes rest w',
      StepsMeet step Smooth w (.start parent moves makes :: rest) →
      runFrom step w (.start parent moves makes :: rest) = some w' → w'.phase = .idle →
        w'.oldThere = false := by
  have hsound : Sound old w :=
    Lib.runFrom_invariant_of_steps (I := Sound old)
      (fun _ _ _ h hC hstep => step_sound h hC hstep) (before_sound old new) hcareful hrun
  exact ⟨hsound.kept, fun parent moves makes rest w' => smooth_run⟩

/-! ### A run that is stopped, and run again -/

instance Careful.decidable (orig : KeyMap Contents) (w : World) : ∀ a, Decidable (Careful orig w a)
  | .next isFile sees _ _ =>
    match hphase : w.phase with
    | .walking _ (name :: _) _ =>
      decidable_of_iff (∀ source ∈ w.old[name]?, isFile = true →
        (sees && w.longEnough name source) = false → orig[staged name]? = none) (by
          constructor
          · rintro h other _ _ _ source hother hsource
            rw [hphase] at hother
            cases hother
            exact h source hsource
          · exact fun h source hsource => h name _ _ _ source hphase hsource)
    | .walking _ [] _ | .idle | .listing | .copying .. | .placing .. | .removing =>
      .isTrue (by simp [Careful, hphase])
  | .finish =>
    match hphase : w.phase with
    | .walking listed [] true =>
      decidable_of_iff (∀ name ∈ w.old.keys, ∀ source ∈ w.old[name]?, name ∉ listed →
        w.longEnough name source = true) (by
          constructor
          · rintro h _ hother name source hsource
            rw [hphase] at hother
            cases hother
            refine h name (Std.ExtTreeMap.mem_keys.mpr ?_) source hsource
            rw [Std.ExtTreeMap.mem_iff_isSome_getElem?, hsource]
            rfl
          · exact fun h name _ source hsource => h listed hphase name source hsource)
    | .walking _ (_ :: _) _ | .walking _ [] false | .idle | .listing | .copying .. | .placing ..
    | .removing => .isTrue (by simp [Careful, hphase])
  | .start .. | .list _ | .write _ | .fail _ | .verify | .place .. | .remove _ | .removed | .stop
  | .grow .. => .isTrue trivial

instance Smooth.decidable (w : World) : ∀ a, Decidable (Smooth w a)
  | .start parent _ makes => inferInstanceAs (Decidable (parent = true ∧ makes = true))
  | .list names => decidable_of_iff (∀ name ∈ w.old.keys, name ∈ names) (by
      simp only [Smooth, Std.ExtTreeMap.mem_keys])
  | .next isFile sees opens _ =>
    inferInstanceAs (Decidable (isFile = true ∧ sees = true ∧ opens = true))
  | .place renames _ => inferInstanceAs (Decidable (renames = true))
  | .fail _ | .stop => .isFalse id
  | .write _ | .verify | .finish | .remove _ | .removed | .grow .. => .isTrue trivial

/-- A folder with two files. -/
def twoParts : KeyMap Contents :=
  ((∅ : KeyMap Contents).insert "a.part" [7, 8]).insert "b.part" [9]

/-- The new folder is on another disk. The first file is copied, and the process stops with
the second one's copy at work. -/
def cutOff : List MoveStep :=
  [.start true false true, .list ["a.part", "b.part"], .next true true true true, .write 1,
    .write 1, .verify, .place true true, .next true true true true, .stop]

/-- The next run finds the first file there, and copies the second one. -/
def again : List MoveStep :=
  [.list ["a.part", "b.part"], .next true true true true, .next true true true true, .write 1,
    .verify, .place true true, .finish, .remove "b.part", .remove "a.part", .removed]

/-- Both runs keep the two files, and the second one leaves no old folder. -/
theorem migration_keeps_again :
    ∃ w w', runFrom step (before twoParts none) cutOff = some w ∧
      runFrom step w (.start true false true :: again) = some w' ∧
      w.new.contains (staged "b.part") = true ∧
      w'.new[staged "b.part"]? = none ∧ w'.new["b.part"]? = some ⟨[9], .copied⟩ ∧
      Kept twoParts w ∧ Kept twoParts w' ∧ w'.oldThere = false := by
  have hruns : (runFrom step (before twoParts none) cutOff).any (fun w =>
      w.new.contains (staged "b.part") &&
        (runFrom step w (.start true false true :: again)).any (fun w' =>
          w'.phase = .idle ∧ w'.new[staged "b.part"]? = none ∧
            w'.new["b.part"]? = some ⟨[9], .copied⟩ ∧
            StepsMeet step Smooth w (.start true false true :: again))) = true := by
    decide +kernel
  obtain ⟨w, hcut, hw⟩ := (Option.any_eq_true _ _).mp hruns
  obtain ⟨hstaged, hagain⟩ := Bool.and_eq_true_iff.mp hw
  obtain ⟨w', hrun, hw'⟩ := (Option.any_eq_true _ _).mp hagain
  obtain ⟨hidle, hgone, hcopied, hsmooth⟩ := of_decide_eq_true hw'
  have hwhole : runFrom step (before twoParts none) (cutOff ++ .start true false true :: again)
      = some w' := Lib.runFrom_append_eq_some.mpr ⟨w, hcut, hrun⟩
  have hcareful : StepsMeet step (Careful twoParts) (before twoParts none)
      (cutOff ++ .start true false true :: again) := by
    decide +kernel
  obtain ⟨hkept, hsweeps⟩ := migration_keeps hcut hcareful.of_append.1
  exact ⟨w, w', hcut, hrun, hstaged, hgone, hcopied, hkept, (migration_keeps hwhole hcareful).1,
    hsweeps true false true again w' hsmooth hrun hidle⟩

/-- A folder with one file. -/
def onePart : KeyMap Contents := (∅ : KeyMap Contents).insert "a.part" [7]

/-- The old folder cannot be listed, and is removed. -/
theorem unlisted_part_lost : ∃ w, runFrom step (before onePart (some ∅))
    [.start true false true, .list [], .finish, .remove "a.part", .removed] = some w ∧
      ¬Kept onePart w := by
  have hany : (runFrom step (before onePart (some ∅))
      [.start true false true, .list [], .finish, .remove "a.part", .removed]).any
      (fun w => w.old["a.part"]?.isNone && w.new["a.part"]?.isNone) = true := by
    decide +kernel
  obtain ⟨w, hw, hnone⟩ := (Option.any_eq_true _ _).mp hany
  rw [Bool.and_eq_true, Option.isNone_iff_eq_none, Option.isNone_iff_eq_none] at hnone
  refine ⟨w, hw, fun hkept => ?_⟩
  have hpart : onePart["a.part"]? = some [7] := by
    rw [onePart, getElem?_keyInsert, if_pos rfl]
  obtain hold | ⟨file, hfile, -⟩ := hkept.safe "a.part" [7] hpart
  · rw [hnone.1] at hold
    cases hold
  · rw [hnone.2] at hfile
    cases hfile

end World

end DeskLink.Migration
