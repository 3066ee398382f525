import DeskLink.Folders.Manifest
import DeskLink.Lib.Counted

/-!
# `DeskLink.Proofs.Folders.Renames`: downloads turned into moves and copies

`renames_by_hash` replaces steps one by one (`Rewritten`) and then leaves out
the deletes whose file was moved.

* `renamesByHash_eq`: what the steps of a plan become.
* `removes_iff`: no file is removed that was not to be deleted, and each that
  was is.
-/

set_option autoImplicit false

namespace DeskLink.Folders

/-- A plan before its downloads are turned into moves and copies. -/
def Unrewritten (steps : List Step) : Prop :=
  ∀ step ∈ steps, match step with
    | .move .. => False
    | .copy .. => False
    | _ => True

variable {mine : Manifest} {steps : List Step} {h path : String} {tombstone : Entry} {α β : Type}

/-! ### Content that is here -/

/-- A file to be deleted, by its content. -/
def DeleteOf (mine : Manifest) (steps : List Step) (h path : String) (tombstone : Entry) : Prop :=
  .delete path tombstone ∈ steps ∧ ∃ ours, mine[path]? = some ours ∧ ours.deleted = false ∧
    ours.dir = false ∧ ours.sha256 = h

/-- A file that stays, by its content. -/
def KeptOf (mine : Manifest) (steps : List Step) (h path : String) : Prop :=
  path ∉ changingPaths steps ∧ ∃ ours, mine[path]? = some ours ∧ ours.deleted = false ∧
    ours.dir = false ∧ ours.sha256 = h

theorem noteDelete_some {deletes : KeyMap (String × Entry)} {step : Step} (hstep : step ∈ steps)
    (hinv : ∀ h path tombstone, deletes[h]? = some (path, tombstone) →
      DeleteOf mine steps h path tombstone)
    (hget : (noteDelete mine deletes step)[h]? = some (path, tombstone)) :
    DeleteOf mine steps h path tombstone := by
  cases step with
  | delete p e =>
    rw [noteDelete] at hget
    cases hmine : mine[p]?.filter (fun ours => !ours.deleted && !ours.dir) with
    | none =>
      rw [hmine] at hget
      exact hinv h path tombstone hget
    | some ours =>
      rw [hmine] at hget
      simp only at hget
      split at hget
      · exact hinv h path tombstone hget
      · rw [getElem?_keyInsert] at hget
        split at hget
        · rename_i heq
          cases hget
          obtain ⟨hget', hlive⟩ := Option.filter_eq_some_iff.mp hmine
          simp only [Bool.and_eq_true, Bool.not_eq_true'] at hlive
          exact ⟨hstep, ours, hget', hlive.1, hlive.2, heq⟩
        · exact hinv h path tombstone hget
  | _ => exact hinv h path tombstone hget

theorem deletesByHash_some (hget : (deletesByHash mine steps)[h]? = some (path, tombstone)) :
    DeleteOf mine steps h path tombstone := by
  refine List.foldlRecOn (motive := fun (deletes : KeyMap (String × Entry)) =>
      ∀ (h path : String) (tombstone : Entry), deletes[h]? = some (path, tombstone) →
        DeleteOf mine steps h path tombstone)
    steps (noteDelete mine) (by simp) ?_ h path tombstone hget
  exact fun deletes hinv step hstep h path tombstone => noteDelete_some hstep hinv

theorem noteKept_some {kept : KeyMap String} {item : String × Entry} (hitem : item ∈ mine.toList)
    (hinv : ∀ h path, kept[h]? = some path → KeptOf mine steps h path)
    (hget : (noteKept (changingPaths steps) kept item)[h]? = some path) :
    KeptOf mine steps h path := by
  unfold noteKept at hget
  simp only at hget
  split at hget
  · rename_i hlive
    rw [getElem?_keyInsert] at hget
    split at hget
    · rename_i heq
      cases hget
      simp only [Bool.and_eq_true, Bool.not_eq_true', List.contains_eq_mem,
        decide_eq_false_iff_not] at hlive
      exact ⟨hlive.2, item.2, (mem_toList_iff mine item).mp hitem, hlive.1.1, hlive.1.2, heq⟩
    · exact hinv h path hget
  · exact hinv h path hget

theorem keptByHash_some (hget : (keptByHash mine steps)[h]? = some path) :
    KeptOf mine steps h path := by
  refine List.foldlRecOn (motive := fun (kept : KeyMap String) =>
      ∀ h path : String, kept[h]? = some path → KeptOf mine steps h path)
    mine.toList (noteKept (changingPaths steps)) (by simp) ?_ h path hget
  exact fun kept hinv item hitem h path => noteKept_some hitem hinv

/-! ### One step -/

/-- What stands in the second of two related lists comes from the first. -/
theorem exists_of_mem_right {R : α → β → Prop} {l : List α} {l' : List β} (h : List.Forall₂ R l l')
    {b : β} (hb : b ∈ l') : ∃ a ∈ l, R a b := by
  induction h with
  | nil => exact absurd hb List.not_mem_nil
  | cons hab _ ih =>
    rcases List.mem_cons.mp hb with rfl | hb
    · exact ⟨_, List.mem_cons_self, hab⟩
    · obtain ⟨a, ha, hr⟩ := ih hb
      exact ⟨a, List.mem_cons_of_mem _ ha, hr⟩

theorem exists_of_mem_left {R : α → β → Prop} {l : List α} {l' : List β} (h : List.Forall₂ R l l')
    {a : α} (ha : a ∈ l) : ∃ b ∈ l', R a b :=
  exists_of_mem_right h.flip ha

/-- What one step becomes. -/
inductive Rewritten (mine : Manifest) (steps : List Step) : Step → Step → Prop where
  | kept (step : Step) : Rewritten mine steps step step
  | moved (path source : String) (entry tombstone : Entry) (hfile : entry.dir = false)
      (hdelete : DeleteOf mine steps entry.sha256 source tombstone) :
      Rewritten mine steps (.download path entry) (.move source path entry tombstone)
  | copied (path source : String) (entry : Entry) (hfile : entry.dir = false)
      (hkept : KeptOf mine steps entry.sha256 source) :
      Rewritten mine steps (.download path entry) (.copy source path entry)

/-- What the steps so far have become. -/
structure Renaming.Sound (mine : Manifest) (steps visited : List Step) (r : Renaming) : Prop where
  out : List.Forall₂ (Rewritten mine steps) visited r.out
  moved : ∀ p, p ∈ r.moved ↔ ∃ target entry tombstone, .move p target entry tombstone ∈ r.out
  left : ∀ h p tombstone, r.deletes[h]? = some (p, tombstone) →
    DeleteOf mine steps h p tombstone ∧ p ∉ r.moved
  nodup : r.moved.Nodup

variable {visited : List Step} {r : Renaming}

/-- A step that is not moved joins the others. -/
theorem Renaming.Sound.append (hr : r.Sound mine steps visited) {step step' : Step}
    (hstep : Rewritten mine steps step step') (hmove : ∀ s t e b, step' ≠ .move s t e b) :
    ({ r with out := r.out ++ [step'] } : Renaming).Sound mine steps (visited ++ [step]) := by
  refine ⟨?_, ?_, hr.left, hr.nodup⟩
  · exact List.rel_append hr.out (List.Forall₂.cons hstep List.Forall₂.nil)
  · intro p
    rw [hr.moved]
    constructor
    · rintro ⟨t, e, b, hmem⟩
      exact ⟨t, e, b, List.mem_append_left _ hmem⟩
    · rintro ⟨t, e, b, hmem⟩
      rcases List.mem_append.mp hmem with hmem | hmem
      · exact ⟨t, e, b, hmem⟩
      · rw [List.mem_singleton] at hmem
        exact absurd hmem.symm (hmove p t e b)

/-- A step that renames nothing. -/
theorem Renaming.Sound.step {step : Step} (hr : r.Sound mine steps visited)
    (hplain : ∀ s t e b, step ≠ .move s t e b) :
    (renameStep (keptByHash mine steps) r step).Sound mine steps (visited ++ [step]) := by
  cases step with
  | download path entry =>
    rw [renameStep]
    split
    · exact hr.append (.kept _) (fun _ _ _ _ h => by cases h)
    · rename_i hdir
      have hfile : entry.dir = false := by simpa using hdir
      cases hdelete : r.deletes[entry.sha256]? with
      | some found =>
        obtain ⟨source, tombstone⟩ := found
        obtain ⟨hof, hfresh⟩ := hr.left _ _ _ hdelete
        refine ⟨?_, ?_, ?_, ?_⟩
        · exact List.rel_append hr.out
            (List.Forall₂.cons (.moved path source entry tombstone hfile hof) List.Forall₂.nil)
        · intro p
          show p ∈ source :: r.moved ↔ ∃ t e b, .move p t e b ∈ r.out ++ [.move source path entry tombstone]
          rw [List.mem_cons, hr.moved]
          constructor
          · rintro (rfl | ⟨t, e, b, hmem⟩)
            · exact ⟨path, entry, tombstone, List.mem_append_right _ List.mem_cons_self⟩
            · exact ⟨t, e, b, List.mem_append_left _ hmem⟩
          · rintro ⟨t, e, b, hmem⟩
            rcases List.mem_append.mp hmem with hmem | hmem
            · exact Or.inr ⟨t, e, b, hmem⟩
            · rw [List.mem_singleton] at hmem
              cases hmem
              exact Or.inl rfl
        · intro h p b hget
          rw [getElem?_keyErase] at hget
          split at hget
          · cases hget
          · rename_i hne
            obtain ⟨hof', hfresh'⟩ := hr.left h p b hget
            refine ⟨hof', ?_⟩
            rw [List.mem_cons, not_or]
            refine ⟨?_, hfresh'⟩
            -- One path has one content.
            rintro rfl
            obtain ⟨-, ours, hours, -, -, hsha⟩ := hof
            obtain ⟨-, ours', hours', -, -, hsha'⟩ := hof'
            rw [hours] at hours'
            cases hours'
            exact hne (hsha.symm.trans hsha')
        · exact List.nodup_cons.mpr ⟨hfresh, hr.nodup⟩
      | none =>
        simp only
        cases hkept : (keptByHash mine steps)[entry.sha256]? with
        | some source =>
          exact hr.append (.copied path source entry hfile (keptByHash_some hkept))
            (fun _ _ _ _ h => by cases h)
        | none => exact hr.append (.kept _) (fun _ _ _ _ h => by cases h)
  | move s t e b => exact absurd rfl (hplain s t e b)
  | _ => exact hr.append (.kept _) (fun _ _ _ _ h => by cases h)

/-! ### A whole plan -/

/-- The steps with their downloads replaced, and the sources of the moves. -/
def renamed (mine : Manifest) (steps : List Step) : Renaming :=
  steps.foldl (renameStep (keptByHash mine steps)) { deletes := deletesByHash mine steps }

theorem renamed_sound (hplain : Unrewritten steps) : (renamed mine steps).Sound mine steps steps := by
  have hrun : ∀ (rest visited : List Step) (r : Renaming), visited ++ rest = steps →
      r.Sound mine steps visited →
      (rest.foldl (renameStep (keptByHash mine steps)) r).Sound mine steps steps := by
    intro rest
    induction rest with
    | nil =>
      intro visited r hsteps hr
      rw [List.append_nil] at hsteps
      exact hsteps ▸ hr
    | cons step rest ih =>
      intro visited r hsteps hr
      have hmem : step ∈ steps := hsteps ▸ List.mem_append_right _ List.mem_cons_self
      refine ih (visited ++ [step]) _ (by simpa using hsteps) (hr.step ?_)
      rintro s t e b rfl
      exact hplain _ hmem
  refine hrun steps [] _ rfl ⟨List.Forall₂.nil, ?_, ?_, List.nodup_nil⟩
  · intro p
    simp
  · intro h p b hget
    exact ⟨deletesByHash_some hget, List.not_mem_nil⟩

theorem renamesByHash_eq : renamesByHash mine steps = (renamed mine steps).out.filter (fun
    | .delete path _ => !(renamed mine steps).moved.contains path
    | _ => true) := rfl

/-- A plan removes a file: it deletes it or moves it away. -/
def Removes (steps : List Step) (path : String) : Prop :=
  (∃ entry, .delete path entry ∈ steps) ∨
    ∃ target entry tombstone, .move path target entry tombstone ∈ steps

theorem removes_iff (hplain : Unrewritten steps) (path : String) :
    Removes (renamesByHash mine steps) path ↔ ∃ entry, .delete path entry ∈ steps := by
  have hr := @renamed_sound mine steps hplain
  have hkeep : ∀ {step : Step}, step ∈ renamesByHash mine steps → step ∈ (renamed mine steps).out := by
    intro step hmem
    rw [renamesByHash_eq] at hmem
    exact (List.mem_filter.mp hmem).1
  constructor
  · rintro (⟨entry, hmem⟩ | ⟨target, entry, tombstone, hmem⟩)
    · obtain ⟨step, hstep, hrew⟩ := exists_of_mem_right hr.out (hkeep hmem)
      cases hrew
      exact ⟨entry, hstep⟩
    · obtain ⟨step, hstep, hrew⟩ := exists_of_mem_right hr.out (hkeep hmem)
      cases hrew with
      | kept => exact absurd (hplain _ hstep) id
      | moved path source entry tombstone hfile hdelete => exact ⟨tombstone, hdelete.1⟩
  · rintro ⟨entry, hstep⟩
    obtain ⟨step', hout, hrew⟩ := exists_of_mem_left hr.out hstep
    cases hrew
    by_cases hmoved : path ∈ (renamed mine steps).moved
    · obtain ⟨target, entry', tombstone, hmem⟩ := (hr.moved path).mp hmoved
      refine Or.inr ⟨target, entry', tombstone, ?_⟩
      rw [renamesByHash_eq]
      exact List.mem_filter.mpr ⟨hmem, rfl⟩
    · refine Or.inl ⟨entry, ?_⟩
      rw [renamesByHash_eq]
      exact List.mem_filter.mpr ⟨hout, by simpa using hmoved⟩

end DeskLink.Folders
