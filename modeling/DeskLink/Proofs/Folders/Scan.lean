import DeskLink.Folders.Scan
import DeskLink.Proofs.Folders.Clashes
import DeskLink.Proofs.Folders.Vectors

/-!
# `DeskLink.Proofs.Folders.Scan`: what a rescan takes for deleted

A scan finds what the walk of the disk meets before its limit (`scan_spec`),
the walk being the scan without one.

* `rescan_live_iff`: an entry stays live when its path was found, held or is
  still there.
* `rescan_safe_iff`: exactly when a rescan records no removal of something
  that exists.
-/

set_option autoImplicit false

namespace DeskLink.Folders

open Lib

variable (pair : Pair) (disk : Disk)

/-! ### The walk -/

/-- What is recorded of a folder's entries. -/
def walkEntries (dir : String) (depth : Nat) (names : List String) : List (String × Stat) :=
  names.filterMap (fun name =>
    (sight pair disk dir depth name).stat.map (fun stat => (joined dir name, stat)))

/-- The folders to look into, the last one first. -/
def walkFolders (dir : String) (depth : Nat) (names : List String) : List String :=
  ((names.filter (fun name => (sight pair disk dir depth name).enter)).map (joined dir)).reverse

/-- All that a scan without a limit meets, in its order. -/
def walk : Nat → String → Nat → List (String × Stat)
  | 0, _, _ => []
  | levels + 1, dir, depth =>
    match disk.listing dir with
    | none => []
    | some names =>
      walkEntries pair disk dir depth names
        ++ (walkFolders pair disk dir depth names).flatMap (fun folder =>
          walk levels folder (depth + 1))

/-- What is met is recorded while there is room. -/
def record (cap : Nat) (found : KeyMap Stat) (met : List (String × Stat)) : KeyMap Stat :=
  met.foldl (fun found item =>
    if cap ≤ found.size then found else found.insert item.1 item.2) found

variable {pair disk} {cap depth : Nat} {found : KeyMap Stat} {dir name path f : String}
variable {keys : Finset String} {stat : Stat}

theorem record_append (cap : Nat) (found : KeyMap Stat) (met met' : List (String × Stat)) :
    record cap found (met ++ met') = record cap (record cap found met) met' :=
  List.foldl_append

/-- Nothing more is recorded without room. -/
theorem record_full (h : cap ≤ found.size) (met : List (String × Stat)) :
    record cap found met = found := by
  induction met with
  | nil => rfl
  | cons item met ih =>
    show record cap (if cap ≤ found.size then found else found.insert item.1 item.2) met = found
    rw [if_pos h]
    exact ih

/-- One folder's entries: they are recorded in order, and the folders to look
into are all of them unless there is no more room. -/
theorem scanEntries_spec (dir : String) (depth : Nat) (names : List String) (s : Scanning) :
    (names.foldl (scanEntry pair disk dir depth) s).found
        = record (scanCap pair) s.found (walkEntries pair disk dir depth names) ∧
      (scanCap pair ≤ (names.foldl (scanEntry pair disk dir depth) s).found.size ∨
        (names.foldl (scanEntry pair disk dir depth) s).stack
          = walkFolders pair disk dir depth names ++ s.stack) := by
  induction names generalizing s with
  | nil => exact ⟨rfl, Or.inr rfl⟩
  | cons name names ih =>
    rw [List.foldl_cons]
    obtain ⟨hfound, hstack⟩ := ih (scanEntry pair disk dir depth s name)
    have hentries : walkEntries pair disk dir depth (name :: names)
        = ((sight pair disk dir depth name).stat.map (fun stat => (joined dir name, stat))).toList
          ++ walkEntries pair disk dir depth names := by
      unfold walkEntries
      rw [List.filterMap_cons]
      cases (sight pair disk dir depth name).stat <;> rfl
    have hfolders : walkFolders pair disk dir depth (name :: names)
        = walkFolders pair disk dir depth names
          ++ if (sight pair disk dir depth name).enter then [joined dir name] else [] := by
      unfold walkFolders
      rw [List.filter_cons]
      split <;> simp
    rw [hentries, record_append, hfolders]
    have hstep : (scanEntry pair disk dir depth s name).found
        = record (scanCap pair) s.found
          ((sight pair disk dir depth name).stat.map (fun stat => (joined dir name, stat))).toList := by
      unfold scanEntry
      simp only
      cases hstat : (sight pair disk dir depth name).stat with
      | none =>
        simp only
        split <;> rfl
      | some stat =>
        show _ = if scanCap pair ≤ s.found.size then s.found else s.found.insert (joined dir name) stat
        simp only
        split <;> rfl
    rw [← hstep]
    refine ⟨hfound, ?_⟩
    by_cases hfull : scanCap pair ≤ (scanEntry pair disk dir depth s name).found.size
    · left
      rw [hfound, record_full hfull]
      exact hfull
    · rcases hstack with hroom | hstack
      · exact Or.inl hroom
      · right
        rw [hstack, List.append_assoc]
        congr 1
        unfold scanEntry at hfull ⊢
        simp only at hfull ⊢
        cases hstat : (sight pair disk dir depth name).stat with
        | none =>
          simp only
          split <;> rfl
        | some stat =>
          rw [hstat] at hfull
          simp only at hfull ⊢
          split
          · rename_i hno
            rw [if_pos hno] at hfull
            exact absurd hno hfull
          · split <;> rfl

/-- A scan records what the walk meets, while there is room. -/
theorem scanFolder_spec (levels : Nat) (dir : String) (depth : Nat) (found : KeyMap Stat) :
    scanFolder pair disk levels dir depth found
      = record (scanCap pair) found (walk pair disk levels dir depth) := by
  induction levels generalizing dir depth found with
  | zero => rfl
  | succ levels ih =>
    rw [scanFolder, walk]
    cases disk.listing dir with
    | none => rfl
    | some names =>
      simp only
      obtain ⟨hfound, hstack⟩ := @scanEntries_spec pair disk dir depth names { found := found }
      rw [record_append, ← hfound]
      generalize names.foldl (scanEntry pair disk dir depth) { found := found } = s at *
      have hfull : ∀ (folders : List String) (found : KeyMap Stat), scanCap pair ≤ found.size →
          folders.foldl (fun found folder => scanFolder pair disk levels folder (depth + 1) found)
            found = found := by
        intro folders
        induction folders with
        | nil => exact fun _ _ => rfl
        | cons folder folders ihf =>
          intro found h
          rw [List.foldl_cons, ih, record_full h]
          exact ihf found h
      have hall : ∀ (folders : List String) (found : KeyMap Stat),
          folders.foldl (fun found folder => scanFolder pair disk levels folder (depth + 1) found)
            found = record (scanCap pair) found (folders.flatMap (fun folder =>
              walk pair disk levels folder (depth + 1))) := by
        intro folders
        induction folders with
        | nil => exact fun _ => rfl
        | cons folder folders ihf =>
          intro found
          rw [List.foldl_cons, List.flatMap_cons, record_append, ih]
          exact ihf _
      rcases hstack with hroom | hstack
      · rw [hfull _ _ hroom, record_full hroom]
      · rw [hstack, List.append_nil, hall]

/-! ### What is recorded -/

/-- A path is met while fewer than `cap` others have been. -/
def Met (cap : Nat) (met : List (String × Stat)) (path : String) : Prop :=
  ∃ before stat after, met = before ++ (path, stat) :: after ∧
    (before.map Prod.fst).toFinset.card < cap

/-- The paths of a map. -/
def KeysAre (found : KeyMap Stat) (keys : Finset String) : Prop :=
  found.size = keys.card ∧ ∀ path, found[path]? ≠ none ↔ path ∈ keys

theorem KeysAre.insert (h : KeysAre found keys) (path : String) (stat : Stat) :
    KeysAre (found.insert path stat) (insert path keys) := by
  constructor
  · rw [Std.ExtTreeMap.size_insert, Std.ExtTreeMap.contains_eq_isSome_getElem?]
    by_cases hmem : path ∈ keys
    · have hthere := (h.2 path).mpr hmem
      rw [Finset.insert_eq_of_mem hmem, ← h.1, if_pos]
      exact Option.isSome_iff_ne_none.mpr hthere
    · have hnot : found[path]? = none := by
        by_contra hthere
        exact hmem ((h.2 path).mp hthere)
      rw [Finset.card_insert_of_notMem hmem, ← h.1, hnot]
      rfl
  · intro a
    rw [getElem?_keyInsert, Finset.mem_insert, ← h.2 a]
    by_cases ha : path = a
    · simp [ha]
    · simp [ha, Ne.symm ha]

theorem record_iff (h : KeysAre found keys) (met : List (String × Stat)) (path : String) :
    (record cap found met)[path]? ≠ none ↔ path ∈ keys ∨
      ∃ before stat after, met = before ++ (path, stat) :: after ∧
        (keys ∪ (before.map Prod.fst).toFinset).card < cap := by
  induction met generalizing found keys with
  | nil =>
    show found[path]? ≠ none ↔ _
    rw [h.2]
    simp
  | cons item met ih =>
    show (record cap (if cap ≤ found.size then found else found.insert item.1 item.2) met)[path]?
      ≠ none ↔ _
    by_cases hfull : cap ≤ found.size
    · rw [if_pos hfull, record_full hfull, h.2]
      refine ⟨Or.inl, ?_⟩
      rintro (hmem | ⟨before, stat, after, -, hroom⟩)
      · exact hmem
      · have hsub : keys ⊆ keys ∪ (before.map Prod.fst).toFinset := Finset.subset_union_left
        have hle := Finset.card_le_card hsub
        rw [h.1] at hfull
        omega
    · rw [if_neg hfull, ih (h.insert item.1 item.2)]
      rw [h.1] at hfull
      have hunion : ∀ before : List (String × Stat),
          insert item.1 keys ∪ (before.map Prod.fst).toFinset
            = keys ∪ ((item :: before).map Prod.fst).toFinset := by
        intro before
        simp [Finset.insert_union, Finset.union_insert]
      constructor
      · rintro (hmem | ⟨before, stat, after, heq, hroom⟩)
        · rcases Finset.mem_insert.mp hmem with rfl | hmem
          · exact Or.inr ⟨[], item.2, met, rfl, by simpa using hfull⟩
          · exact Or.inl hmem
        · refine Or.inr ⟨item :: before, stat, after, by rw [heq]; rfl, ?_⟩
          rw [← hunion]
          exact hroom
      · rintro (hmem | ⟨before, stat, after, heq, hroom⟩)
        · exact Or.inl (Finset.mem_insert_of_mem hmem)
        · cases before with
          | nil =>
            rw [List.nil_append, List.cons.injEq] at heq
            left
            rw [heq.1]
            exact Finset.mem_insert_self _ _
          | cons item' before =>
            rw [List.cons_append, List.cons.injEq] at heq
            obtain ⟨rfl, heq⟩ := heq
            refine Or.inr ⟨before, stat, after, heq, ?_⟩
            rw [hunion]
            exact hroom

theorem recorded_iff (cap : Nat) (met : List (String × Stat)) (path : String) :
    (record cap ∅ met)[path]? ≠ none ↔ Met cap met path := by
  have hempty : KeysAre ∅ ∅ := ⟨rfl, by simp⟩
  rw [record_iff hempty]
  simp [Met]

/-- What is recorded was met. -/
theorem mem_of_record {met : List (String × Stat)} (h : (record cap found met)[path]? = some stat) :
    found[path]? = some stat ∨ (path, stat) ∈ met := by
  induction met generalizing found with
  | nil => exact Or.inl h
  | cons item met ih =>
    have hstep : (record cap (if cap ≤ found.size then found
        else found.insert item.1 item.2) met)[path]? = some stat := h
    rcases ih hstep with hget | hmem
    · split at hget
      · exact Or.inl hget
      · rw [getElem?_keyInsert] at hget
        split at hget
        · rename_i heq
          cases hget
          exact Or.inr (heq ▸ List.mem_cons_self)
        · exact Or.inl hget
    · exact Or.inr (List.mem_cons_of_mem _ hmem)

/-! ### What is met -/

theorem foldersAbove_joined (hname : '/' ∉ name.toList) (hf : f ∈ foldersAbove (joined dir name)) :
    f = dir ∨ f ∈ foldersAbove dir := by
  rw [mem_foldersAbove] at hf
  unfold joined at hf
  split at hf
  · exact absurd hf (not_mem_above_name hname)
  · rw [String.toList_ofList, mem_above_append hname] at hf
    rcases hf with heq | hmem
    · exact Or.inl (String.toList_inj.mp heq)
    · exact Or.inr (mem_foldersAbove.mpr hmem)

theorem not_mem_foldersAbove_joined_empty (hname : '/' ∉ name.toList) :
    f ∉ foldersAbove (joined "" name) := by
  rw [mem_foldersAbove]
  exact not_mem_above_name hname

/-- A path the walk meets has a valid name, is what is recorded of it, and is
in folders that were looked at. -/
structure Sighted (disk : Disk) (path : String) (stat : Stat) : Prop where
  valid : validateRelpath path = true
  look : disk.look path = .found .folder ∧ stat.dir = true ∨
    ∃ size mtime, disk.look path = .found (.file size mtime) ∧ stat = ⟨size, mtime, false⟩
  above : ∀ f ∈ foldersAbove path, disk.look f = .found .folder

/-- A folder that is looked into: the root, or one in folders looked at. -/
def Entered (disk : Disk) (dir : String) : Prop :=
  dir = "" ∨ disk.look dir = .found .folder ∧ ∀ f ∈ foldersAbove dir, disk.look f = .found .folder

theorem above_of_entered (hdir : Entered disk dir) (hname : '/' ∉ name.toList) :
    ∀ f ∈ foldersAbove (joined dir name), disk.look f = .found .folder := by
  intro f hf
  rcases hdir with rfl | ⟨hlook, habove⟩
  · exact absurd hf (not_mem_foldersAbove_joined_empty hname)
  · rcases foldersAbove_joined hname hf with rfl | hmem
    · exact hlook
    · exact habove f hmem

/-- What is seen of one entry. -/
theorem sight_spec : (∀ stat, (sight pair disk dir depth name).stat = some stat →
      validateRelpath (joined dir name) = true ∧
        (disk.look (joined dir name) = .found .folder ∧ stat.dir = true ∨
          ∃ size mtime, disk.look (joined dir name) = .found (.file size mtime) ∧
            stat = ⟨size, mtime, false⟩)) ∧
      ((sight pair disk dir depth name).enter = true →
        disk.look (joined dir name) = .found .folder) := by
  unfold sight
  simp only
  split
  · exact ⟨fun _ h => (by cases h), fun h => (by cases h)⟩
  · split
    · exact ⟨fun _ h => (by cases h), fun h => (by cases h)⟩
    · rename_i hplain hvalid
      have hpath : validateRelpath (joined dir name) = true := by
        simp only [Bool.or_eq_true, Bool.not_eq_true', not_or, Bool.not_eq_false] at hvalid
        exact hvalid.2
      split
      · rename_i node hlook
        split
        · exact ⟨fun _ h => (by cases h), fun h => (by cases h)⟩
        · cases node with
          | folder =>
            simp only
            split
            · exact ⟨fun _ h => (by cases h), fun _ => hlook⟩
            · split
              · exact ⟨fun _ h => (by cases h), fun h => (by cases h)⟩
              · refine ⟨?_, fun _ => hlook⟩
                rintro stat h
                cases h
                exact ⟨hpath, Or.inl ⟨hlook, rfl⟩⟩
          | other => exact ⟨fun _ h => (by cases h), fun h => (by cases h)⟩
          | file size mtime =>
            simp only
            split
            · exact ⟨fun _ h => (by cases h), fun h => (by cases h)⟩
            · refine ⟨?_, fun h => (by cases h)⟩
              rintro stat h
              cases h
              exact ⟨hpath, Or.inr ⟨size, mtime, hlook, rfl⟩⟩
      · exact ⟨fun _ h => (by cases h), fun h => (by cases h)⟩

theorem walk_sighted {levels : Nat} (hdir : Entered disk dir)
    (h : (path, stat) ∈ walk pair disk levels dir depth) : Sighted disk path stat := by
  induction levels generalizing dir depth with
  | zero => exact absurd h List.not_mem_nil
  | succ levels ih =>
    rw [walk] at h
    cases hlist : disk.listing dir with
    | none =>
      rw [hlist] at h
      exact absurd h List.not_mem_nil
    | some names =>
      rw [hlist] at h
      have hnames := disk.listed_names dir names hlist
      simp only [List.mem_append, walkEntries, walkFolders, List.mem_filterMap, List.mem_flatMap,
        List.mem_reverse, List.mem_map, List.mem_filter] at h
      rcases h with ⟨name, hname, hsight⟩ | ⟨folder, ⟨name, ⟨hname, henter⟩, rfl⟩, hmem⟩
      · obtain ⟨stat', hstat, heq⟩ := Option.map_eq_some_iff.mp hsight
        cases heq
        obtain ⟨hvalid, hlook⟩ := sight_spec.1 _ hstat
        exact ⟨hvalid, hlook, above_of_entered hdir (hnames name hname)⟩
      · have hlook := sight_spec.2 henter
        exact ih (Or.inr ⟨hlook, above_of_entered hdir (hnames name hname)⟩) hmem

/-! ### What a rescan keeps -/

section Rescan

variable (lower : Char → List Char) (pair disk)

/-- The walk meets a path before the scan's limit. -/
def MetInTime (path : String) : Prop :=
  Met (scanCap pair) (walk pair disk maxDepth "" 0) path

/-- A path is met in time, and in a Bucket neither it nor a folder above it
comes after one of the same directory and folded name. -/
def Seen (path : String) : Prop :=
  MetInTime pair disk path ∧ (pair.bucket = true → ∀ r ∈ path :: foldersAbove path,
    ¬(MetInTime pair disk r ∧ ∃ q, MetInTime pair disk q ∧ caseKey lower q = caseKey lower r ∧
      compare q r = .lt))

variable {lower pair disk} {found : KeyMap Stat} {path : String} {old : Entry} {stat : Stat}

theorem scanned_iff (path : String) :
    (scanFolder pair disk maxDepth "" 0 ∅)[path]? ≠ none ↔ MetInTime pair disk path := by
  rw [scanFolder_spec, recorded_iff]
  rfl

theorem scan_iff (h : scan lower pair disk = some found) (path : String) :
    found[path]? ≠ none ↔ Seen pair disk lower path := by
  unfold scan at h
  split at h
  · cases h
  · simp only [Option.some.injEq] at h
    subst h
    unfold Seen
    rw [← scanned_iff]
    cases hbucket : pair.bucket with
    | false => simp
    | true =>
      simp only [if_true, true_imp_iff]
      have hlive : ∀ r, LiveAt (scanFolder pair disk maxDepth "" 0 ∅) (fun _ => true) r ↔
          MetInTime pair disk r := by
        intro r
        rw [← scanned_iff, Option.ne_none_iff_exists']
        simp [LiveAt]
      have hkept := @kept_live_iff Stat lower (scanFolder pair disk maxDepth "" 0 ∅)
        (fun _ => true) path
      have hget : ∀ (m : KeyMap Stat), LiveAt m (fun _ => true) path ↔ m[path]? ≠ none := by
        intro m
        rw [Option.ne_none_iff_exists']
        simp [LiveAt]
      rw [hget, hget] at hkept
      rw [hkept]
      unfold LosesWithin Beaten
      simp only [hlive, not_exists, not_and]

/-- What a scan finds at a path is what is there. -/
theorem sighted_of_scan (h : scan lower pair disk = some found) (hget : found[path]? = some stat) :
    Sighted disk path stat := by
  have hfound : (scanFolder pair disk maxDepth "" 0 ∅)[path]? = some stat := by
    unfold scan at h
    split at h
    · cases h
    · simp only [Option.some.injEq] at h
      subst h
      split at hget
      · exact (kept_iff.mp hget).1
      · exact hget
  rw [scanFolder_spec] at hfound
  rcases mem_of_record hfound with hnone | hmem
  · simp at hnone
  · exact walk_sighted (Or.inl rfl) hmem

theorem holdUnstable_get (found : KeyMap Stat) (manifest : Manifest) (now window : Int)
    (hold : manifest[path]? = some old) (hlive : old.deleted = false) :
    (holdUnstable found manifest now window)[path]? ≠ none ↔
      ∃ stat, found[path]? = some stat ∧
        ¬(stat.dir = false ∧ 0 ≤ now - stat.mtime ∧ now - stat.mtime < window ∧
          old.mtime ≠ stat.mtime ∧ old.dir = true) := by
  unfold holdUnstable
  rw [Std.ExtTreeMap.getElem?_filterMap']
  cases found[path]? with
  | none => simp
  | some stat =>
    simp only [hold, Option.all_some, hlive, Bool.false_or, Option.filter_some,
      Bool.not_false, Bool.true_and, Option.some.injEq, exists_eq_left']
    cases hdir : old.dir <;> grind

theorem keepExisting_get (found : KeyMap Stat) (manifest : Manifest)
    (hold : manifest[path]? = some old) (hlive : old.deleted = false) :
    (keepExisting disk found manifest)[path]? ≠ none ↔
      found[path]? ≠ none ∨ stillThere disk path = true := by
  have hother : ∀ (found : KeyMap Stat) (item : String × Entry), item.1 ≠ path →
      (keepPath disk found item)[path]? = found[path]? := by
    intro found item hne
    unfold keepPath
    simp only
    split
    · rfl
    · split
      · rw [getElem?_keyInsert, if_neg hne]
      · rfl
  have hrun := foldl_entries hother manifest found
  rw [hold] at hrun
  obtain ⟨m, hbefore, hrun⟩ := hrun
  unfold keepExisting
  rw [hrun, ← hbefore]
  unfold keepPath
  simp only [hlive, Bool.false_or, Std.ExtTreeMap.contains_eq_isSome_getElem?]
  cases hm : m[path]? with
  | some stat => simp [hm]
  | none => by_cases hthere : stillThere disk path = true <;> simp [hthere, hm]

/-- A live entry stays live when its path is found. -/
theorem live_applyScan_iff (side : Side) (hash : String → Option String) (m : Manifest)
    (found : KeyMap Stat) (now : Int) (hold : m[path]? = some old) (hlive : old.deleted = false) :
    (∃ new, (applyScan side m found hash now)[path]? = some new ∧ new.deleted = false) ↔
      found[path]? ≠ none := by
  have hcontains : found.contains path = true ↔ found[path]? ≠ none := by
    rw [Std.ExtTreeMap.contains_eq_isSome_getElem?, Option.isSome_iff_ne_none]
  rcases applyScan_some side hash m found now hold with
    ⟨-, new, hnew, -, -, hdeleted⟩ | ⟨hsame, hcases⟩
  · rw [hnew, ← hcontains]
    constructor
    · rintro ⟨new', heq, hnot⟩
      cases heq
      simpa [hnot] using hdeleted
    · intro hthere
      exact ⟨new, rfl, by simpa [hthere] using hdeleted⟩
  · have hthere : found[path]? ≠ none := by
      intro hnone
      rw [hnone] at hsame
      exact hsame hlive
    refine iff_of_true ?_ hthere
    rcases hcases with ⟨hdead, -⟩ | hkept | ⟨-, stat, htouched⟩
    · rw [hlive] at hdead
      cases hdead
    · exact ⟨old, hkept, hlive⟩
    · exact ⟨_, htouched, hlive⟩

/-- A file that was met can be read. -/
theorem readPath_of_sighted (h : Sighted disk path stat) (hfile : stat.dir = false) :
    stillThere disk path = true := by
  have hlook : ∃ size mtime, disk.look path = .found (.file size mtime) := by
    rcases h.look with ⟨-, hdir⟩ | ⟨size, mtime, hlook, -⟩
    · rw [hfile] at hdir
      cases hdir
    · exact ⟨size, mtime, hlook⟩
  obtain ⟨size, mtime, hlook⟩ := hlook
  have hread : readPath disk path = true := by
    unfold readPath
    simp only [h.valid, hlook, Bool.and_true, Bool.true_and, List.all_eq_true]
    intro f hf
    rw [h.above f hf]
    rfl
  unfold stillThere
  rw [hread, hlook]
  rfl

/-- An entry stays live in a rescan that is not held exactly when its path is
seen or still there. -/
theorem rescan_live_iff (h : scan lower pair disk = some found) (hash : String → Option String)
    (now window : Int) {manifest : Manifest} (hold : manifest[path]? = some old)
    (hlive : old.deleted = false) :
    (∃ new, (applyScan .desk manifest
        (keepExisting disk (holdUnstable found manifest now window) manifest) hash now)[path]?
          = some new ∧ new.deleted = false) ↔
      Seen pair disk lower path ∨ stillThere disk path = true := by
  rw [live_applyScan_iff .desk hash manifest _ now hold hlive, keepExisting_get _ _ hold hlive,
    holdUnstable_get _ _ _ _ hold hlive, ← scan_iff h]
  constructor
  · rintro (⟨stat, hstat, -⟩ | hthere)
    · exact Or.inl (by rw [hstat]; simp)
    · exact Or.inr hthere
  · rintro (hseen | hthere)
    · obtain ⟨stat, hstat⟩ := Option.ne_none_iff_exists'.mp hseen
      by_cases hfile : stat.dir = false
      · exact Or.inr (readPath_of_sighted (sighted_of_scan h hstat) hfile)
      · exact Or.inl ⟨stat, hstat, fun hheld => hfile hheld.1⟩
    · exact Or.inr hthere

end Rescan

/-! ### Nothing that exists is recorded as removed -/

section Safe

variable (lower : Char → List Char) (pair : Pair) (disk : Disk)

/-- The rescan changes nothing: the root is not there, or nothing is seen in it
and neither did the person confirm that nor is it the directory it was. -/
def HeldBack (allowEmpty onPurpose : Bool) : Prop :=
  disk.isRoot = false ∨
    (allowEmpty = false ∧ onPurpose = false ∧ ∀ path, ¬Seen pair disk lower path)

/-- A rescan records no removal of something that exists exactly when it is
held back, or every live path that exists is seen by the scan, is a file that
can be looked at in its place, or lies in a folder that cannot be listed or
looked at. -/
theorem rescan_safe_iff (hash : String → Option String) (allowEmpty onPurpose : Bool)
    (now window : Int) (manifest : Manifest) :
    (∀ (path : String) (old : Entry), manifest[path]? = some old → old.deleted = false →
        disk.there path ≠ none →
        ∃ new, (rescan lower pair disk hash allowEmpty onPurpose now window manifest)[path]?
          = some new ∧ new.deleted = false) ↔
      HeldBack lower pair disk allowEmpty onPurpose ∨
        ∀ (path : String) (old : Entry), manifest[path]? = some old → old.deleted = false →
          disk.there path ≠ none →
          Seen pair disk lower path ∨ stillThere disk path = true := by
  have hkeeps : rescan lower pair disk hash allowEmpty onPurpose now window manifest = manifest →
      ∀ (path : String) (old : Entry), manifest[path]? = some old → old.deleted = false →
        disk.there path ≠ none →
        ∃ new, (rescan lower pair disk hash allowEmpty onPurpose now window manifest)[path]?
          = some new ∧ new.deleted = false := by
    intro heq path old hold hlive _
    rw [heq]
    exact ⟨old, hold, hlive⟩
  cases hscan : scan lower pair disk with
  | none =>
    have hroot : disk.isRoot = false := by
      unfold scan at hscan
      split at hscan
      · rename_i h
        simpa using h
      · cases hscan
    have hsame : rescan lower pair disk hash allowEmpty onPurpose now window manifest = manifest := by
      unfold rescan
      rw [hscan]
    exact iff_of_true (hkeeps hsame) (Or.inl (Or.inl hroot))
  | some found =>
    have hroot : disk.isRoot = true := by
      unfold scan at hscan
      split at hscan
      · cases hscan
      · rename_i h
        simpa using h
    have hempty : found.isEmpty = true ↔ ∀ path, ¬Seen pair disk lower path := by
      rw [Std.ExtTreeMap.isEmpty_iff]
      constructor
      · rintro rfl path hseen
        exact (scan_iff hscan path).mpr hseen (by simp)
      · intro hnone
        apply Std.ExtTreeMap.ext_getElem?
        intro path
        by_contra hne
        have hthere : found[path]? ≠ none := fun h => hne (by rw [h]; simp)
        exact hnone path ((scan_iff hscan path).mp hthere)
    by_cases hheld : (found.isEmpty && manifest.toList.any (fun item => !item.2.deleted)
        && !allowEmpty && !onPurpose) = true
    · have hsame : rescan lower pair disk hash allowEmpty onPurpose now window manifest
          = manifest := by
        unfold rescan
        rw [hscan]
        simp only [hheld, if_true]
      simp only [Bool.and_eq_true, Bool.not_eq_true'] at hheld
      obtain ⟨⟨⟨hnothing, -⟩, hallow⟩, hpurpose⟩ := hheld
      exact iff_of_true (hkeeps hsame)
        (Or.inl (Or.inr ⟨hallow, hpurpose, hempty.mp hnothing⟩))
    · have hrun : rescan lower pair disk hash allowEmpty onPurpose now window manifest
          = applyScan .desk manifest
            (keepExisting disk (holdUnstable found manifest now window) manifest) hash now := by
        unfold rescan
        rw [hscan]
        simp only [hheld, Bool.false_eq_true, if_false]
      rw [hrun]
      constructor
      · intro h
        right
        intro path old hold hlive hthere
        exact (rescan_live_iff hscan hash now window hold hlive).mp (h path old hold hlive hthere)
      · rintro (hback | h)
        · -- Held back in vain: there is no live entry.
          intro path old hold hlive _
          exfalso
          rcases hback with hnoroot | ⟨hallow, hpurpose, hnone⟩
          · rw [hroot] at hnoroot
            cases hnoroot
          · apply hheld
            have hany : manifest.toList.any (fun item => !item.2.deleted) = true := by
              rw [List.any_eq_true]
              exact ⟨(path, old), (mem_toList_iff manifest (path, old)).mpr hold, by simp [hlive]⟩
            rw [hempty.mpr hnone, hany, hallow, hpurpose]
            rfl
        · intro path old hold hlive hthere
          exact (rescan_live_iff hscan hash now window hold hlive).mpr
            (h path old hold hlive hthere)

end Safe

/-- Two empty folders whose names differ only in case. -/
def twoFolders : Disk where
  there path := if path = "A" ∨ path = "a" then some .folder else none
  looked _ := true
  listing dir := if dir = "" then some ["A", "a"] else some []
  isRoot := true
  above_folder path h := by
    have hpath : path = "A" ∨ path = "a" := by
      by_contra hne
      exact h (if_neg hne)
    rcases hpath with rfl | rfl <;> intro f hf <;> revert hf <;> decide +revert
  listed_names dir names h := by
    split at h <;> cases h <;> decide

/-- The rescan of a Bucket records the later of two such folders as removed,
though it is there. -/
theorem clashing_folder_tombstoned :
    (rescan (fun c => [c.toLower]) ⟨true, false, []⟩ twoFolders (fun _ => none) false false 0 2000
        ((∅ : Manifest).insert "a" { dir := true, vv := ⟨1, 0⟩ }))["a"]?
      = some { deleted := true, dir := true, vv := ⟨2, 0⟩ } ∧
    twoFolders.there "a" = some .folder := by
  decide +kernel

end DeskLink.Folders
