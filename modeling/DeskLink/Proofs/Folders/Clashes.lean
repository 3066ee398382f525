import DeskLink.Folders.Clashes
import DeskLink.Lib.Counted

/-!
# `DeskLink.Proofs.Folders.Clashes`: names that differ only in case

* `kept_iff`: what `drop_case_clashes` keeps, said without the order of the
  visits.
* `remote_live_iff`: what `left_out_of_remote` lets through.
-/

set_option autoImplicit false

namespace DeskLink.Folders

open Lib

variable {a path : String}

/-! ### Folders above a path -/

theorem mem_foldersAbove : a ∈ foldersAbove path ↔ a.toList ∈ above '/' path.toList := by
  unfold foldersAbove
  rw [List.mem_map]
  constructor
  · rintro ⟨b, hb, rfl⟩
    rwa [String.toList_ofList]
  · intro h
    exact ⟨a.toList, h, String.ofList_toList⟩

theorem foldersAbove_trans {b : String} (hb : b ∈ foldersAbove a) (ha : a ∈ foldersAbove path) :
    b ∈ foldersAbove path := by
  rw [mem_foldersAbove] at *
  exact above_trans hb ha

/-- A path is itself `loser`, or `loser` is above it. -/
theorem atOrBelow_iff {loser : String} :
    atOrBelow loser path = true ↔ loser ∈ path :: foldersAbove path := by
  unfold atOrBelow
  rw [List.mem_cons, mem_foldersAbove, mem_above, Bool.or_eq_true, beq_iff_eq,
    List.isPrefixOf_iff_prefix, eq_comm]

/-- A folder above a path sorts before it. -/
theorem compare_foldersAbove (h : a ∈ foldersAbove path) : compare a path = .lt := by
  rw [mem_foldersAbove, mem_above] at h
  obtain ⟨rest, hrest⟩ := h
  have hlt : a < path := by
    show a.toList < path.toList
    rw [← hrest, List.append_assoc]
    generalize a.toList = l
    induction l with
    | nil => exact List.nil_lt_cons _ _
    | cons c l ih => exact List.cons_lt_cons_iff.mpr (Or.inr ⟨rfl, ih⟩)
  show compareOfLessAndEq a path = .lt
  unfold compareOfLessAndEq
  rw [if_pos hlt]

theorem exists_topmost_folder {Bad : String → Prop} (h : ∃ a ∈ foldersAbove path, Bad a) :
    ∃ a ∈ foldersAbove path, Bad a ∧ ∀ b ∈ foldersAbove a, ¬Bad b := by
  obtain ⟨a, ha, hbad⟩ := h
  obtain ⟨b, hb, hbbad, htop⟩ := @exists_topmost '/' (fun s => Bad (String.ofList s)) path.toList
    ⟨a.toList, mem_foldersAbove.mp ha, by rwa [String.ofList_toList]⟩
  refine ⟨String.ofList b, mem_foldersAbove.mpr (by rwa [String.toList_ofList]), hbbad, ?_⟩
  intro c hc
  have hmem := mem_foldersAbove.mp hc
  rw [String.toList_ofList] at hmem
  have hnot := htop c.toList hmem
  rwa [String.ofList_toList] at hnot

/-! ### The topmost bad paths -/

/-- `marked` are the bad paths of `done` that no bad one is above. -/
def Topmost (Bad : String → Prop) (visited marked : List String) : Prop :=
  ∀ r, r ∈ marked ↔ r ∈ visited ∧ Bad r ∧ ∀ a ∈ foldersAbove r, ¬Bad a

variable {Bad : String → Prop} {visited marked : List String} {path : String}

/-- A path is below a marked one when something above it is bad. -/
theorem Topmost.under_iff (h : Topmost Bad visited marked)
    (habove : ∀ a ∈ foldersAbove path, Bad a → a ∈ visited) :
    (foldersAbove path).any marked.contains = true ↔ ∃ a ∈ foldersAbove path, Bad a := by
  rw [List.any_eq_true]
  constructor
  · rintro ⟨a, ha, hmarked⟩
    have hmem : a ∈ marked := by simpa using hmarked
    exact ⟨a, ha, ((h a).mp hmem).2.1⟩
  · intro hbad
    obtain ⟨a, ha, habad, htop⟩ := exists_topmost_folder hbad
    have hmem : a ∈ marked := (h a).mpr ⟨habove a ha habad, habad, htop⟩
    exact ⟨a, ha, by simpa using hmem⟩

theorem Topmost.atOrBelow_iff (h : Topmost Bad visited marked)
    (hall : ∀ a ∈ path :: foldersAbove path, Bad a → a ∈ visited) :
    marked.any (fun loser => atOrBelow loser path) = true ↔
      ∃ a ∈ path :: foldersAbove path, Bad a := by
  simp only [List.any_eq_true, Folders.atOrBelow_iff]
  constructor
  · rintro ⟨a, hmarked, ha⟩
    exact ⟨a, ha, ((h a).mp hmarked).2.1⟩
  · intro hbad
    by_cases habove : ∃ a ∈ foldersAbove path, Bad a
    · obtain ⟨a, ha, habad, htop⟩ := exists_topmost_folder habove
      have hmem : a ∈ path :: foldersAbove path := List.mem_cons_of_mem _ ha
      exact ⟨a, (h a).mpr ⟨hall a hmem habad, habad, htop⟩, hmem⟩
    · obtain ⟨a, ha, habad⟩ := hbad
      rcases List.mem_cons.mp ha with rfl | hin
      · exact ⟨a, (h a).mpr ⟨hall a ha habad, habad, fun b hb hbb => habove ⟨b, hb, hbb⟩⟩, ha⟩
      · exact absurd ⟨a, hin, habad⟩ habove

/-- A bad path that nothing bad is above is marked. -/
theorem Topmost.mark (h : Topmost Bad visited marked)
    (hbad : Bad path ∧ ∀ a ∈ foldersAbove path, ¬Bad a) :
    Topmost Bad (visited ++ [path]) (marked ++ [path]) := by
  intro r
  rw [List.mem_append, List.mem_singleton, List.mem_append, List.mem_singleton, h r]
  constructor
  · rintro (⟨hr, hrest⟩ | rfl)
    · exact ⟨Or.inl hr, hrest⟩
    · exact ⟨Or.inr rfl, hbad⟩
  · rintro ⟨hr | rfl, hrest⟩
    · exact Or.inl ⟨hr, hrest⟩
    · exact Or.inr rfl

/-- Any other is not. -/
theorem Topmost.pass (h : Topmost Bad visited marked)
    (hgood : ¬(Bad path ∧ ∀ a ∈ foldersAbove path, ¬Bad a)) :
    Topmost Bad (visited ++ [path]) marked := by
  intro r
  rw [List.mem_append, List.mem_singleton, h r]
  constructor
  · rintro ⟨hr, hrest⟩
    exact ⟨Or.inl hr, hrest⟩
  · rintro ⟨hr | rfl, hrest⟩
    · exact ⟨hr, hrest⟩
    · exact absurd hrest hgood

/-! ### Visiting a map in key order -/

section Visits

variable {V : Type} {items : KeyMap V} {before after : List (String × V)} {item : String × V}

/-- What is visited before a path is what sorts before it. -/
theorem visited_iff (h : items.toList = before ++ item :: after) {q : String} {v : V}
    (hq : items[q]? = some v) : q ∈ before.map Prod.fst ↔ compare q item.1 = .lt := by
  have hsorted : (before ++ item :: after).Pairwise (fun a b => compare a.1 b.1 = .lt) :=
    h ▸ Std.ExtTreeMap.ordered_keys_toList
  obtain ⟨-, hafter, hacross⟩ := List.pairwise_append.mp hsorted
  have hmem : (q, v) ∈ before ++ item :: after := h ▸ (mem_toList_iff items (q, v)).mpr hq
  constructor
  · intro hq
    obtain ⟨e, he, rfl⟩ := List.mem_map.mp hq
    exact hacross e he item List.mem_cons_self
  · intro hlt
    rcases List.mem_append.mp hmem with hin | hin
    · exact List.mem_map_of_mem hin
    · rcases List.mem_cons.mp hin with heq | hin
      · have hself : compare q q = .eq := Std.ReflCmp.compare_self
        rw [← heq, hself] at hlt
        cases hlt
      · have hgt := (List.pairwise_cons.mp hafter).1 (q, v) hin
        have hswap := Std.OrientedOrd.eq_swap (a := q) (b := item.1)
        rw [hlt, hgt] at hswap
        cases hswap

theorem item_mem (h : items.toList = before ++ item :: after) : items[item.1]? = some item.2 :=
  (mem_toList_iff items item).mp (h ▸ List.mem_append_right _ List.mem_cons_self)

end Visits

/-! ### Within one set of paths -/

section Drop

variable {V : Type} (lower : Char → List Char) (items : KeyMap V) (live : V → Bool)

/-- A path of `items` that is live. -/
def LiveAt (path : String) : Prop := ∃ v, items[path]? = some v ∧ live v = true

/-- A live path with another before it, live and of the same directory and
folded name. -/
def Beaten (path : String) : Prop :=
  LiveAt items live path ∧ ∃ q, LiveAt items live q ∧ caseKey lower q = caseKey lower path ∧
    compare q path = .lt

variable {lower items live} {path : String}

theorem not_beaten_empty : ¬Beaten lower items live "" := by
  rintro ⟨-, q, -, -, hlt⟩
  have hcmp : compareOfLessAndEq q "" = .lt := hlt
  unfold compareOfLessAndEq at hcmp
  split at hcmp
  · rename_i h
    exact absurd (show q.toList < "".toList from h) (List.not_lt_nil _)
  · split at hcmp <;> cases hcmp

/-- Two paths of one directory and folded name are in the same folders. -/
theorem beaten_above_of_caseKey {q a : String} (hkey : caseKey lower q = caseKey lower path)
    (ha : a ∈ foldersAbove q) (hbad : Beaten lower items live a) : a ∈ foldersAbove path := by
  rw [mem_foldersAbove] at *
  have hparent := congrArg Prod.fst hkey
  simp only [caseKey, splitPath] at hparent
  refine above_of_splitParent (String.ofList_injective hparent) ha ?_
  intro hnil
  have hempty : a = "" := String.toList_inj.mp hnil
  exact not_beaten_empty (hempty ▸ hbad)

/-- What the visits so far have left. -/
structure Clashes.Visited (lower : Char → List Char) (items : KeyMap V) (live : V → Bool)
    (visited : List String) (c : Clashes) : Prop where
  losers : Topmost (Beaten lower items live) visited c.losers
  first : ∀ key, key ∈ c.first ↔ ∃ r ∈ visited, LiveAt items live r ∧
    (∀ a ∈ foldersAbove r, ¬Beaten lower items live a) ∧ caseKey lower r = key

/-- One more path is visited. -/
theorem Clashes.Visited.visit {before after : List (String × V)} {item : String × V} {c : Clashes}
    (h : items.toList = before ++ item :: after)
    (hc : c.Visited lower items live (before.map Prod.fst)) :
    (c.visit lower live item).Visited lower items live ((before ++ [item]).map Prod.fst) := by
  obtain ⟨path, v⟩ := item
  have hitem : items[path]? = some v := item_mem h
  have hvisited : ∀ q, LiveAt items live q → (q ∈ before.map Prod.fst ↔ compare q path = .lt) := by
    rintro q ⟨u, hu, -⟩
    exact visited_iff h hu
  have hunder : (foldersAbove path).any c.losers.contains = true ↔
      ∃ a ∈ foldersAbove path, Beaten lower items live a := by
    apply hc.losers.under_iff
    intro a ha hbad
    exact (hvisited a hbad.1).mpr (compare_foldersAbove ha)
  have hpath : (before ++ [(path, v)]).map Prod.fst = before.map Prod.fst ++ [path] := by simp
  rw [hpath]
  -- A path that is not kept as a name changes no name.
  have hsame : (LiveAt items live path →
      ∃ a ∈ foldersAbove path, Beaten lower items live a) → ∀ key, key ∈ c.first ↔
        ∃ r ∈ before.map Prod.fst ++ [path], LiveAt items live r ∧
          (∀ a ∈ foldersAbove r, ¬Beaten lower items live a) ∧ caseKey lower r = key := by
    intro hnot key
    rw [hc.first]
    constructor
    · rintro ⟨r, hr, hrest⟩
      exact ⟨r, List.mem_append_left _ hr, hrest⟩
    · rintro ⟨r, hr, hlive, habove, hkey⟩
      rcases List.mem_append.mp hr with hr | hr
      · exact ⟨r, hr, hlive, habove, hkey⟩
      · rw [List.mem_singleton] at hr
        subst hr
        obtain ⟨a, ha, hbad⟩ := hnot hlive
        exact absurd hbad (habove a ha)
  unfold Clashes.visit
  simp only
  split
  · -- not live
    rename_i hdead
    have hnot : ¬LiveAt items live path := by
      rintro ⟨u, hu, hlive⟩
      rw [hitem] at hu
      cases hu
      rw [hlive] at hdead
      cases hdead
    exact ⟨hc.losers.pass (fun hbad => hnot hbad.1.1), hsame (fun hlive => absurd hlive hnot)⟩
  · rename_i hlive
    have hliveAt : LiveAt items live path := ⟨v, hitem, by simpa using hlive⟩
    split
    · -- below a loser
      rename_i hbelow
      have habove := hunder.mp hbelow
      refine ⟨hc.losers.pass ?_, hsame (fun _ => habove)⟩
      rintro ⟨-, hnone⟩
      obtain ⟨a, ha, hbad⟩ := habove
      exact hnone a ha hbad
    · rename_i hbelow
      have hnone : ∀ a ∈ foldersAbove path, ¬Beaten lower items live a :=
        fun a ha hbad => hbelow (hunder.mpr ⟨a, ha, hbad⟩)
      have hbeaten : c.first.contains (caseKey lower path) = true ↔
          Beaten lower items live path := by
        rw [List.contains_iff_mem, hc.first]
        constructor
        · rintro ⟨r, hr, hrlive, -, hkey⟩
          exact ⟨hliveAt, r, hrlive, hkey, (hvisited r hrlive).mp hr⟩
        · rintro ⟨-, q, hqlive, hkey, hlt⟩
          exact ⟨q, (hvisited q hqlive).mpr hlt, hqlive,
            fun a ha hbad => hnone a (beaten_above_of_caseKey hkey ha hbad) hbad, hkey⟩
      split
      · -- another came first
        rename_i hfirst
        have hbad := hbeaten.mp hfirst
        refine ⟨hc.losers.mark ⟨hbad, hnone⟩, ?_⟩
        intro key
        rw [hc.first]
        constructor
        · rintro ⟨r, hr, hrest⟩
          exact ⟨r, List.mem_append_left _ hr, hrest⟩
        · rintro ⟨r, hr, hrlive, habove, hkey⟩
          rcases List.mem_append.mp hr with hr | hr
          · exact ⟨r, hr, hrlive, habove, hkey⟩
          · rw [List.mem_singleton] at hr
            subst hr
            have hmem : caseKey lower r ∈ c.first := by simpa using hfirst
            rw [← hkey]
            exact (hc.first _).mp hmem
      · -- the first of its name
        rename_i hfirst
        refine ⟨hc.losers.pass (fun hbad => hfirst (hbeaten.mpr hbad.1)), ?_⟩
        intro key
        rw [List.mem_cons, hc.first]
        constructor
        · rintro (rfl | ⟨r, hr, hrest⟩)
          · exact ⟨path, by simp, hliveAt, hnone, rfl⟩
          · exact ⟨r, List.mem_append_left _ hr, hrest⟩
        · rintro ⟨r, hr, hrlive, habove, hkey⟩
          rcases List.mem_append.mp hr with hr | hr
          · exact Or.inr ⟨r, hr, hrlive, habove, hkey⟩
          · rw [List.mem_singleton] at hr
            subst hr
            exact Or.inl hkey.symm

/-- The paths left out are those beaten that nothing beaten is above. -/
theorem caseLosers_topmost :
    Topmost (Beaten lower items live) (items.toList.map Prod.fst) (caseLosers lower items live) := by
  have hrun : ∀ (after before : List (String × V)) (c : Clashes),
      items.toList = before ++ after →
      c.Visited lower items live (before.map Prod.fst) →
      (after.foldl (Clashes.visit lower live) c).Visited lower items live
        (items.toList.map Prod.fst) := by
    intro after
    induction after with
    | nil =>
      intro before c h hc
      rw [h, List.append_nil]
      exact hc
    | cons item after ih =>
      intro before c h hc
      exact ih (before ++ [item]) _ (by simpa using h) (hc.visit h)
  refine (hrun items.toList [] {} rfl ⟨?_, ?_⟩).losers
  · intro r
    simp
  · intro key
    simp

/-- What is kept: what is not live, and the live paths that neither are
beaten nor are below one that is. -/
theorem kept_iff {v : V} : (dropCaseClashes lower items live).1[path]? = some v ↔
      items[path]? = some v ∧
        (live v = false ∨ ∀ r ∈ path :: foldersAbove path, ¬Beaten lower items live r) := by
  unfold dropCaseClashes
  simp only
  rw [keyFilter_eq_some]
  have hall : ∀ a ∈ path :: foldersAbove path, Beaten lower items live a →
      a ∈ items.toList.map Prod.fst := by
    rintro a - ⟨⟨u, hu, -⟩, -⟩
    exact List.mem_map_of_mem (f := Prod.fst) ((mem_toList_iff items (a, u)).mpr hu)
  have hbelow := (@caseLosers_topmost V lower items live).atOrBelow_iff hall
  simp only [Bool.or_eq_true, Bool.not_eq_true', Bool.eq_false_iff, ne_eq, hbelow, not_exists,
    not_and]

end Drop

/-! ### With what this side has -/

section Remote

variable (lower : Char → List Char) (remote mine : Manifest)

/-- An entry that is no removal. -/
def isLive (entry : Entry) : Bool := !entry.deleted

/-- A live path here has the directory and folded name of `path`, which is not
one of them. -/
def HeldOther (path : String) : Prop :=
  (∃ h, LiveAt mine isLive h ∧ caseKey lower h = caseKey lower path) ∧ ¬LiveAt mine isLive path

variable {lower remote mine} {path : String}

theorem mem_held {key : String × String} :
    key ∈ heldKeys lower mine ↔ ∃ h, LiveAt mine isLive h ∧ caseKey lower h = key := by
  simp only [heldKeys, List.mem_map, List.mem_filter, mem_toList_iff, LiveAt, isLive, Prod.exists]
  constructor
  · rintro ⟨h, entry, ⟨hget, hlive⟩, hkey⟩
    exact ⟨h, ⟨entry, hget, hlive⟩, hkey⟩
  · rintro ⟨h, ⟨entry, hget, hlive⟩, hkey⟩
    exact ⟨h, entry, ⟨hget, hlive⟩, hkey⟩

theorem not_liveAt_iff :
    mine[path]?.all (fun ours => ours.deleted) = true ↔ ¬LiveAt mine isLive path := by
  unfold LiveAt isLive
  cases mine[path]? <;> simp

/-- One visit marks a path that is live, held under another name, and not
below one that is marked. -/
theorem clashVisit_topmost {before after : List (String × Entry)} {item : String × Entry}
    {clashing : List String} (h : remote.toList = before ++ item :: after)
    (hc : Topmost (fun r => LiveAt remote isLive r ∧ HeldOther lower mine r)
      (before.map Prod.fst) clashing) :
    Topmost (fun r => LiveAt remote isLive r ∧ HeldOther lower mine r)
      ((before ++ [item]).map Prod.fst)
      (clashVisit lower (heldKeys lower mine) mine clashing item) := by
  obtain ⟨path, entry⟩ := item
  have hitem : remote[path]? = some entry := item_mem h
  have hlive : LiveAt remote isLive path ↔ entry.deleted = false := by
    unfold LiveAt isLive
    rw [hitem]
    simp
  have hbefore : ∀ a ∈ foldersAbove path, LiveAt remote isLive a ∧ HeldOther lower mine a →
      a ∈ before.map Prod.fst := by
    rintro a ha ⟨⟨u, hu, -⟩, -⟩
    exact (visited_iff h hu).mpr (compare_foldersAbove ha)
  have hunder := hc.under_iff hbefore
  have hpath : (before ++ [(path, entry)]).map Prod.fst = before.map Prod.fst ++ [path] := by simp
  rw [hpath]
  unfold clashVisit
  simp only
  split
  · rename_i hmark
    simp only [Bool.and_eq_true, Bool.not_eq_true', Bool.eq_false_iff, ne_eq, hunder,
      List.contains_iff_mem, mem_held, not_liveAt_iff] at hmark
    obtain ⟨⟨⟨hdeleted, hnone⟩, hheld⟩, hmine⟩ := hmark
    apply hc.mark
    refine ⟨⟨hlive.mpr (by simpa using hdeleted), hheld, hmine⟩, ?_⟩
    exact fun a ha hbad => hnone ⟨a, ha, hbad⟩
  · rename_i hpass
    apply hc.pass
    rintro ⟨⟨hl, hheld, hmine⟩, hnone⟩
    apply hpass
    simp only [Bool.and_eq_true, Bool.not_eq_true', Bool.eq_false_iff, ne_eq, hunder,
      List.contains_iff_mem, mem_held, not_liveAt_iff]
    refine ⟨⟨⟨by simpa using hlive.mp hl, ?_⟩, hheld⟩, hmine⟩
    rintro ⟨a, ha, hbad⟩
    exact hnone a ha hbad

theorem clashing_topmost :
    Topmost (fun r => LiveAt remote isLive r ∧ HeldOther lower mine r)
      (remote.toList.map Prod.fst) (remoteClashing lower remote mine) := by
  have hrun : ∀ (after before : List (String × Entry)) (clashing : List String),
      remote.toList = before ++ after →
      Topmost (fun r => LiveAt remote isLive r ∧ HeldOther lower mine r)
        (before.map Prod.fst) clashing →
      Topmost (fun r => LiveAt remote isLive r ∧ HeldOther lower mine r)
        (remote.toList.map Prod.fst)
        (after.foldl (clashVisit lower (heldKeys lower mine) mine) clashing) := by
    intro after
    induction after with
    | nil =>
      intro before clashing h hc
      rw [h, List.append_nil]
      exact hc
    | cons item after ih =>
      intro before clashing h hc
      exact ih (before ++ [item]) _ (by simpa using h) (clashVisit_topmost h hc)
  apply hrun remote.toList [] [] rfl
  intro r
  simp

/-- A live path that is let through: it and all listed folders above it are
not beaten, and none of them is held here under another name. -/
theorem remote_live_iff : LiveAt (leftOutOfRemote lower remote mine).1 isLive path ↔
      LiveAt remote isLive path ∧
        ∀ r ∈ path :: foldersAbove path, ¬Beaten lower remote isLive r ∧
          ¬(LiveAt remote isLive r ∧ HeldOther lower mine r) := by
  have hkept : ∀ r, (∀ a ∈ r :: foldersAbove r, ¬Beaten lower remote isLive a) →
      (LiveAt (dropCaseClashes lower remote isLive).1 isLive r ↔ LiveAt remote isLive r) := by
    intro r hr
    unfold LiveAt
    simp only [kept_iff]
    constructor
    · rintro ⟨v, ⟨hget, -⟩, hlive⟩
      exact ⟨v, hget, hlive⟩
    · rintro ⟨v, hget, hlive⟩
      exact ⟨v, ⟨hget, Or.inr hr⟩, hlive⟩
  have hsub : ∀ a ∈ path :: foldersAbove path, ∀ b ∈ a :: foldersAbove a,
      b ∈ path :: foldersAbove path := by
    intro a ha b hb
    rcases List.mem_cons.mp ha with rfl | ha
    · exact hb
    · rcases List.mem_cons.mp hb with rfl | hb
      · exact List.mem_cons_of_mem _ ha
      · exact List.mem_cons_of_mem _ (foldersAbove_trans hb ha)
  have hall : ∀ a ∈ path :: foldersAbove path,
      LiveAt (dropCaseClashes lower remote isLive).1 isLive a ∧ HeldOther lower mine a →
      a ∈ (dropCaseClashes lower remote isLive).1.toList.map Prod.fst := by
    rintro a - ⟨⟨u, hu, -⟩, -⟩
    exact List.mem_map_of_mem (f := Prod.fst) ((mem_toList_iff _ (a, u)).mpr hu)
  have hbelow := clashing_topmost.atOrBelow_iff hall
  have hresult : LiveAt (leftOutOfRemote lower remote mine).1 isLive path ↔
      LiveAt (dropCaseClashes lower remote isLive).1 isLive path ∧
        ∀ a ∈ path :: foldersAbove path,
          ¬(LiveAt (dropCaseClashes lower remote isLive).1 isLive a ∧ HeldOther lower mine a) := by
    have hnot : (∀ a ∈ path :: foldersAbove path,
        ¬(LiveAt (dropCaseClashes lower remote isLive).1 isLive a ∧ HeldOther lower mine a)) ↔
        ¬∃ a ∈ path :: foldersAbove path,
          LiveAt (dropCaseClashes lower remote isLive).1 isLive a ∧ HeldOther lower mine a := by
      simp only [not_exists, not_and]
    rw [hnot, ← hbelow]
    show (∃ v, (leftOutOfRemote lower remote mine).1[path]? = some v ∧ isLive v = true) ↔ _
    unfold leftOutOfRemote
    simp only [keyFilter_eq_some, Bool.or_eq_true, Bool.not_eq_true', Bool.eq_false_iff, ne_eq]
    constructor
    · rintro ⟨v, ⟨hget, hor⟩, hlive⟩
      refine ⟨⟨v, hget, hlive⟩, ?_⟩
      rcases hor with hdead | hfree
      · simp [isLive, hdead] at hlive
      · exact hfree
    · rintro ⟨⟨v, hget, hlive⟩, hfree⟩
      exact ⟨v, ⟨hget, Or.inr hfree⟩, hlive⟩
  rw [hresult]
  constructor
  · rintro ⟨⟨v, hget, hlive⟩, hclash⟩
    obtain ⟨hremote, hdead | hbeaten⟩ := kept_iff.mp hget
    · rw [hlive] at hdead
      cases hdead
    refine ⟨⟨v, hremote, hlive⟩, fun r hr => ⟨hbeaten r hr, ?_⟩⟩
    rintro ⟨hrlive, hheld⟩
    exact hclash r hr ⟨(hkept r (fun a ha => hbeaten a (hsub r hr a ha))).mpr hrlive, hheld⟩
  · rintro ⟨hlive, hall⟩
    have hbeaten : ∀ a ∈ path :: foldersAbove path, ¬Beaten lower remote isLive a :=
      fun a ha => (hall a ha).1
    refine ⟨(hkept path hbeaten).mpr hlive, fun r hr => ?_⟩
    rintro ⟨hrlive, hheld⟩
    exact (hall r hr).2
      ⟨(hkept r (fun a ha => hbeaten a (hsub r hr a ha))).mp hrlive, hheld⟩

end Remote

/-! ### One name on a system that ignores case -/

section Distinct

variable {V : Type} (lower : Char → List Char) (items : KeyMap V) (live : V → Bool)

/-- The names of a path, each folded. -/
def foldedNames (path : String) : List String :=
  (segments '/' path.toList).map (fun name => foldName lower (String.ofList name))

/-- No two live paths are one when case is not told. -/
def CaseDistinct : Prop :=
  ∀ p q, LiveAt items live p → LiveAt items live q → foldedNames lower p = foldedNames lower q →
    p = q

/-- Two names of one directory that differ only in case. -/
def Parted (f g : String) : Prop := f ≠ g ∧ caseKey lower f = caseKey lower g

/-- The path, or a listed folder above it, is beaten. -/
def LosesWithin (path : String) : Prop :=
  ∃ r ∈ path :: foldersAbove path, Beaten lower items live r

/-- Of any two live paths that are one when case is not told, and lie in
folders that part and are not both listed, one is left out anyway. -/
def FoldersListed : Prop :=
  ∀ p q, LiveAt items live p → LiveAt items live q → p ≠ q →
    foldedNames lower p = foldedNames lower q →
    ∀ f ∈ foldersAbove p, ∀ g ∈ foldersAbove q, Parted lower f g →
      ¬(LiveAt items live f ∧ LiveAt items live g) →
      LosesWithin lower items live p ∨ LosesWithin lower items live q

variable {lower items live}

theorem parted_of_folded {p q : String} (h : foldedNames lower p = foldedNames lower q)
    (hne : p ≠ q) :
    Parted lower p q ∨ ∃ f ∈ foldersAbove p, ∃ g ∈ foldersAbove q, Parted lower f g := by
  have halike : Alike '/' (fun name => name.map (foldChar lower)) p.toList q.toList := by
    have hinj : Function.Injective String.ofList := fun _ _ => String.ofList_injective
    apply List.map_injective_iff.mpr hinj
    simp only [List.map_map]
    simpa [foldedNames, foldName, Function.comp_def] using h
  have hparted : ∀ f g : List Char, Parting '/' (fun name => name.map (foldChar lower)) f g →
      Parted lower (String.ofList f) (String.ofList g) := by
    intro f g hp
    refine ⟨fun heq => hp.ne (String.ofList_injective heq), ?_⟩
    simp only [caseKey, splitPath, foldName, String.toList_ofList, Prod.mk.injEq]
    exact ⟨congrArg String.ofList hp.parent, congrArg String.ofList hp.name⟩
  rcases exists_parting halike (fun heq => hne (String.toList_inj.mp heq)) with
    hp | ⟨f, hf, g, hg, hp⟩
  · left
    have hpart := hparted _ _ hp
    rwa [String.ofList_toList, String.ofList_toList] at hpart
  · right
    refine ⟨String.ofList f, mem_foldersAbove.mpr (by rwa [String.toList_ofList]),
      String.ofList g, mem_foldersAbove.mpr (by rwa [String.toList_ofList]), hparted f g hp⟩

/-- Of two listed names of one directory that differ only in case, one is
beaten. -/
theorem beaten_of_parted {f g : String} (h : Parted lower f g) (hf : LiveAt items live f)
    (hg : LiveAt items live g) : Beaten lower items live f ∨ Beaten lower items live g := by
  cases hcmp : compare f g with
  | lt => exact Or.inr ⟨hg, f, hf, h.2, hcmp⟩
  | eq => exact absurd (Std.LawfulEqOrd.eq_of_compare hcmp) h.1
  | gt =>
    left
    refine ⟨hf, g, hg, h.2.symm, ?_⟩
    rw [Std.OrientedOrd.eq_swap (a := g) (b := f), hcmp]
    rfl

theorem kept_live_iff {path : String} :
    LiveAt (dropCaseClashes lower items live).1 live path ↔
      LiveAt items live path ∧ ¬LosesWithin lower items live path := by
  have hnot : ¬LosesWithin lower items live path ↔
      ∀ r ∈ path :: foldersAbove path, ¬Beaten lower items live r := by
    unfold LosesWithin
    simp only [not_exists, not_and]
  rw [hnot]
  unfold LiveAt
  simp only [kept_iff]
  constructor
  · rintro ⟨v, ⟨hget, hor⟩, hlive⟩
    refine ⟨⟨v, hget, hlive⟩, ?_⟩
    rcases hor with hdead | hall
    · rw [hlive] at hdead
      cases hdead
    · exact hall
  · rintro ⟨⟨v, hget, hlive⟩, hall⟩
    exact ⟨v, ⟨hget, Or.inr hall⟩, hlive⟩

/-- What is kept is without clashes exactly when the clashing folders are
listed, or one of the paths is left out anyway. -/
theorem caseDistinct_iff :
    CaseDistinct lower (dropCaseClashes lower items live).1 live ↔
      FoldersListed lower items live := by
  unfold CaseDistinct FoldersListed
  simp only [kept_live_iff]
  constructor
  · intro h p q hp hq hne halike f hf g hg hparted hlisted
    by_contra hnone
    rw [not_or] at hnone
    exact hne (h p q ⟨hp, hnone.1⟩ ⟨hq, hnone.2⟩ halike)
  · rintro h p q ⟨hp, hpkept⟩ ⟨hq, hqkept⟩ halike
    by_contra hne
    rcases parted_of_folded halike hne with hparted | ⟨f, hf, g, hg, hparted⟩
    · rcases beaten_of_parted hparted hp hq with hbeaten | hbeaten
      · exact hpkept ⟨p, List.mem_cons_self, hbeaten⟩
      · exact hqkept ⟨q, List.mem_cons_self, hbeaten⟩
    · by_cases hlisted : LiveAt items live f ∧ LiveAt items live g
      · rcases beaten_of_parted hparted hlisted.1 hlisted.2 with hbeaten | hbeaten
        · exact hpkept ⟨f, List.mem_cons_of_mem _ hf, hbeaten⟩
        · exact hqkept ⟨g, List.mem_cons_of_mem _ hg, hbeaten⟩
      · rcases h p q hp hq hne halike f hf g hg hparted hlisted with hloses | hloses
        · exact hpkept hloses
        · exact hqkept hloses

/-- Nothing is left to drop. -/
theorem dropCaseClashes_dropped :
    dropCaseClashes lower (dropCaseClashes lower items live).1 live
      = ((dropCaseClashes lower items live).1, []) := by
  have hnone : ∀ r, ¬Beaten lower (dropCaseClashes lower items live).1 live r := by
    rintro r ⟨hr, q, hq, hkey, hlt⟩
    rw [kept_live_iff] at hr hq
    exact hr.2 ⟨r, List.mem_cons_self, hr.1, q, hq.1, hkey, hlt⟩
  have hlosers : caseLosers lower (dropCaseClashes lower items live).1 live = [] := by
    rw [List.eq_nil_iff_forall_not_mem]
    intro r hr
    exact hnone r ((caseLosers_topmost r).mp hr).2.1
  have hsame : (dropCaseClashes lower (dropCaseClashes lower items live).1 live).1
      = (dropCaseClashes lower items live).1 := by
    apply Std.ExtTreeMap.ext_getElem?
    intro a
    cases hget : (dropCaseClashes lower items live).1[a]? with
    | some v => exact kept_iff.mpr ⟨hget, Or.inr (fun r _ => hnone r)⟩
    | none =>
      rw [Option.eq_none_iff_forall_ne_some]
      intro v hv
      rw [(kept_iff.mp hv).1] at hget
      cases hget
  exact Prod.ext hsame hlosers

/-- A map is the one its entries make, in whatever order. -/
theorem ofList_of_perm {listing : List (String × V)} (h : listing.Perm items.toList) :
    Std.ExtTreeMap.ofList listing compare = items := by
  have hnodup : (listing.map Prod.fst).Nodup :=
    (h.map Prod.fst).nodup_iff.mpr (nodup_keys_toList items)
  apply Std.ExtTreeMap.ext_getElem?
  intro a
  rw [Option.ext_iff]
  intro v
  rw [getElem?_ofList hnodup, h.mem_iff, mem_toList_iff]

end Distinct

/-! ### Within a set and with what this side has -/

section Settled

variable (lower : Char → List Char) (remote mine : Manifest)

/-- No live path of `remote` is one with another live path here, or with a
folder above one, when case is not told. -/
def RemoteDistinct (remote : Manifest) : Prop :=
  ∀ r, LiveAt remote isLive r → ∀ l, LiveAt mine isLive l → ∀ t ∈ l :: foldersAbove l,
    foldedNames lower t = foldedNames lower r → t = r

/-- Of any remote live path and a local one (or a folder above it) that are
one when case is not told, and part at names of which one is not listed on its
side, or which are both live here, the remote one is left out anyway. -/
def RemoteListed : Prop :=
  ∀ r, LiveAt remote isLive r → ∀ l, LiveAt mine isLive l → ∀ t ∈ l :: foldersAbove l, t ≠ r →
    foldedNames lower t = foldedNames lower r →
    ∀ f ∈ r :: foldersAbove r, ∀ g ∈ t :: foldersAbove t, Parted lower f g →
      ¬(LiveAt remote isLive f ∧ LiveAt mine isLive g ∧ ¬LiveAt mine isLive f) →
      LosesWithin lower remote isLive r ∨
        ∃ s ∈ r :: foldersAbove r, LiveAt remote isLive s ∧ HeldOther lower mine s

variable {lower remote mine}

theorem remoteDistinct_iff :
    RemoteDistinct lower mine (leftOutOfRemote lower remote mine).1 ↔
      RemoteListed lower remote mine := by
  have hthrough : ∀ r, LiveAt (leftOutOfRemote lower remote mine).1 isLive r ↔
      LiveAt remote isLive r ∧ ¬(LosesWithin lower remote isLive r ∨
        ∃ s ∈ r :: foldersAbove r, LiveAt remote isLive s ∧ HeldOther lower mine s) := by
    intro r
    rw [remote_live_iff]
    unfold LosesWithin
    simp only [not_or, not_exists, not_and, forall_and]
  unfold RemoteDistinct RemoteListed
  simp only [hthrough]
  constructor
  · intro h r hr l hl t ht hne halike f hf g hg hparted hlisted
    by_contra hnone
    exact hne (h r ⟨hr, hnone⟩ l hl t ht halike)
  · rintro h r ⟨hr, hkept⟩ l hl t ht halike
    by_contra hne
    have hfound : ∃ f ∈ r :: foldersAbove r, ∃ g ∈ t :: foldersAbove t, Parted lower f g := by
      rcases parted_of_folded halike.symm (Ne.symm hne) with hparted | ⟨f, hf, g, hg, hparted⟩
      · exact ⟨r, List.mem_cons_self, t, List.mem_cons_self, hparted⟩
      · exact ⟨f, List.mem_cons_of_mem _ hf, g, List.mem_cons_of_mem _ hg, hparted⟩
    obtain ⟨f, hf, g, hg, hparted⟩ := hfound
    by_cases hlisted : LiveAt remote isLive f ∧ LiveAt mine isLive g ∧ ¬LiveAt mine isLive f
    · -- `f` is held here under the name `g`
      exact hkept (Or.inr ⟨f, hf, hlisted.1, ⟨g, hlisted.2.1, hparted.2.symm⟩, hlisted.2.2⟩)
    · exact hkept (h r hr l hl t ht hne halike f hf g hg hparted hlisted)

end Settled

/-- Case clashes: what is kept does not depend on the order of the visits and
has nothing left to drop. It is without clashes exactly when clashing folders
are listed (or one of the clashing paths is left out anyway), and what is let
through of the other side's manifest exactly when they are on both sides. -/
theorem case_clashes_settled (lower : Char → List Char) :
    (∀ {V : Type} (items : KeyMap V) (live : V → Bool),
      ((CaseDistinct lower (dropCaseClashes lower items live).1 live ∧
          dropCaseClashes lower (dropCaseClashes lower items live).1 live
            = ((dropCaseClashes lower items live).1, []) ∧
          (∀ listing : List (String × V), listing.Perm items.toList →
            dropCaseClashes lower (Std.ExtTreeMap.ofList listing compare) live
              = dropCaseClashes lower items live) ∧
          ∀ path v, (dropCaseClashes lower items live).1[path]? = some v ↔
            items[path]? = some v ∧
              (live v = false ∨ ¬LosesWithin lower items live path)) ↔
        FoldersListed lower items live)) ∧
    ∀ remote mine : Manifest,
      RemoteDistinct lower mine (leftOutOfRemote lower remote mine).1 ↔
        RemoteListed lower remote mine := by
  refine ⟨?_, fun remote mine => remoteDistinct_iff⟩
  intro V items live
  constructor
  · rintro ⟨hdistinct, -⟩
    exact caseDistinct_iff.mp hdistinct
  · intro hlisted
    refine ⟨caseDistinct_iff.mpr hlisted, dropCaseClashes_dropped, ?_, ?_⟩
    · intro listing hperm
      rw [ofList_of_perm hperm]
    · intro path v
      rw [kept_iff]
      unfold LosesWithin
      simp only [not_exists, not_and]

/-- Two files in folders that are not listed, and whose names differ only in
case, are both kept. -/
theorem unlisted_folders_clash :
    ¬CaseDistinct (fun c => [c.toLower])
      (dropCaseClashes (fun c => [c.toLower])
        (((∅ : KeyMap Unit).insert "A/x" ()).insert "a/x" ()) (fun _ => true)).1
      (fun _ => true) := by
  rw [caseDistinct_iff]
  intro h
  have hlive : ∀ p, LiveAt (((∅ : KeyMap Unit).insert "A/x" ()).insert "a/x" ()) (fun _ => true) p ↔
      p = "A/x" ∨ p = "a/x" := by
    intro p
    unfold LiveAt
    simp only [getElem?_keyInsert]
    split
    · simp_all
    · split
      · simp_all
      · simp_all [eq_comm]
  have hloses : ∀ p, p = "A/x" ∨ p = "a/x" →
      ¬LosesWithin (fun c => [c.toLower]) (((∅ : KeyMap Unit).insert "A/x" ()).insert "a/x" ())
        (fun _ => true) p := by
    rintro p hp ⟨r, -, hr, q, hq, hkey, hlt⟩
    rw [hlive] at hr hq
    rcases hr with rfl | rfl <;> rcases hq with rfl | rfl <;> revert hkey hlt <;> decide
  rcases h "A/x" "a/x" ((hlive _).mpr (Or.inl rfl)) ((hlive _).mpr (Or.inr rfl)) (by decide)
    (by decide) "A" (by decide) "a" (by decide) (by unfold Parted; decide)
    (fun hboth => absurd ((hlive _).mp hboth.1) (by decide)) with hfirst | hsecond
  · exact hloses _ (Or.inl rfl) hfirst
  · exact hloses _ (Or.inr rfl) hsecond

end DeskLink.Folders
