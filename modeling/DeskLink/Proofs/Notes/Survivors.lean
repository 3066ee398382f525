import DeskLink.Notes.Duplicates
import DeskLink.Proofs.Notes.AnyOrder

/-!
# `DeskLink.Proofs.Notes.Survivors`: what a copy goes for

A shelf files each note under its id, with a title within its bound
(`Shelf.Sound`). On such a shelf the copies that
`duplicate_copies` lists are looked up by `doomed_iff`, what one goes for does not
go itself (`survivor_stays`), and so the chain of survivors ends in one step
(`doomed_stays`).
-/

set_option autoImplicit false

namespace DeskLink.Notes

variable {s : Shelf} {everywhere : Bool} {copy survivor n other : Note} {stays : String}

/-- Every note is filed under its own id, and no title is over its bound. -/
structure Shelf.Sound (s : Shelf) : Prop where
  keyed : s.Keyed
  titles : ∀ (k : String) (n : Note), s.notes[k]? = some n → n.title.length ≤ maxNoteTitleChars

theorem copyOf_title_length (n : Note) : n.copyOf.title.length ≤ maxNoteTitleChars := by
  have hlabel : n.label.length ≤ 80 := by
    unfold Note.label
    rw [String.length_ofList]
    exact List.length_take_le 80 _
  have hspace : " ".length = 1 := rfl
  have hsuffix : copySuffix.length = 17 := by decide
  show (n.label ++ " " ++ copySuffix).length ≤ 200
  rw [String.length_append, String.length_append, hspace, hsuffix]
  omega

/-! ### Titles without their suffixes -/

theorem length_trimNote (text : List Char) : (trimNote text).length ≤ text.length := by
  unfold trimNote
  rw [List.length_reverse]
  refine (List.dropWhile_sublist _).length_le.trans ?_
  rw [List.length_reverse]
  exact (List.dropWhile_sublist _).length_le

/-- The loop of `content_key` has ended: no suffix is left. -/
theorem withoutSuffixes_done (fuel : Nat) (title : List Char) (h : title.length ≤ fuel) :
    (withoutSuffixes fuel title).dropSuffix? copySuffix.toList = none := by
  have hlength : copySuffix.toList.length = 17 := by decide
  have hstrip (title rest : List Char) (h : title.dropSuffix? copySuffix.toList = some rest) :
      rest.length + 17 = title.length := by
    obtain ⟨suffix, rfl, hsuffix⟩ := List.dropSuffix?_eq_some_iff.mp h
    rw [List.length_append, ← hlength, beq_iff_eq.mp hsuffix]
  induction fuel generalizing title with
  | zero =>
    have hnone : title.length = 0 := by omega
    cases hfound : title.dropSuffix? copySuffix.toList with
    | none => exact hfound
    | some rest =>
      have hlong := hstrip title rest hfound
      omega
  | succ fuel ih =>
    unfold withoutSuffixes
    cases hfound : title.dropSuffix? copySuffix.toList with
    | none => exact hfound
    | some rest =>
      have hlong := hstrip title rest hfound
      have htrim := length_trimNote rest
      exact ih (trimNote rest) (by omega)

/-! ### The live notes -/

theorem mem_live (hs : s.Keyed) : n ∈ s.live ↔ s.notes[n.id]? = some n ∧ n.deleted = false := by
  unfold Shelf.live
  rw [List.mem_filter, List.mem_map, Bool.not_eq_true']
  refine and_congr_left (fun _ => ?_)
  constructor
  · rintro ⟨⟨k, n'⟩, hentry, rfl⟩
    have hstored := Std.ExtTreeMap.mem_toList_iff_getElem?_eq_some.mp hentry
    rw [hs k n' hstored]
    exact hstored
  · intro hstored
    exact ⟨(n.id, n), Std.ExtTreeMap.mem_toList_iff_getElem?_eq_some.mpr hstored, rfl⟩

/-- They are listed in the order of their ids. -/
theorem live_sorted (hs : s.Keyed) : s.live.Pairwise (fun a b => a.id < b.id) := by
  unfold Shelf.live
  refine List.Pairwise.filter _ (List.pairwise_map.mpr ?_)
  refine List.Pairwise.imp_of_mem ?_ Std.ExtTreeMap.ordered_keys_toList
  intro a b ha hb hlt
  have hid (entry : String × Note) (hentry : entry ∈ s.notes.toList) : entry.2.id = entry.1 :=
    hs _ _ (Std.ExtTreeMap.mem_toList_iff_getElem?_eq_some.mp hentry)
  rw [hid a ha, hid b hb]
  exact compare_lt_iff_lt.mp hlt

theorem live_eq_of_id (hs : s.Keyed) {a b : Note} (ha : a ∈ s.live) (hb : b ∈ s.live)
    (hid : a.id = b.id) : a = b := by
  have ha := ((mem_live hs).mp ha).1
  have hb := ((mem_live hs).mp hb).1
  rw [hid, hb] at ha
  exact (Option.some.inj ha).symm

theorem mem_liveCopies : n ∈ s.liveCopies ↔ n ∈ s.live ∧ n.isCopy = true := by
  unfold Shelf.liveCopies
  exact List.mem_filter

@[simp] theorem contentKey_snd (n : Note) : n.contentKey.2 = n.body := by
  unfold Note.contentKey
  split <;> rfl

/-- What says the same as a copy. -/
theorem mem_group (hcopy : copy ∈ s.liveCopies) :
    n ∈ s.group copy ↔ n ∈ s.live ∧ n.contentKey = copy.contentKey := by
  unfold Shelf.group
  rw [List.mem_filter, Bool.and_eq_true, beq_iff_eq]
  refine and_congr_right (fun _ => and_iff_right_of_imp (fun hkey => ?_))
  have hbody : n.body = copy.body := by rw [← contentKey_snd n, hkey, contentKey_snd]
  rw [List.contains_iff_mem, List.mem_map]
  exact ⟨copy, hcopy, by rw [hbody]⟩

/-- The first one that is found has the lowest id. -/
theorem find?_lowest {l : List Note} (hl : l.Pairwise (fun a b => a.id < b.id)) {p : Note → Bool}
    (h : l.find? p = some n) (hother : other ∈ l) (hp : p other = true) :
    n = other ∨ n.id < other.id := by
  obtain ⟨hn, before, after, rfl, hbefore⟩ := List.find?_eq_some_iff_append.mp h
  rw [List.mem_append, List.mem_cons] at hother
  obtain hother | rfl | hother := hother
  · have hfails := hbefore other hother
    rw [hp] at hfails
    cases hfails
  · exact .inl rfl
  · exact .inr ((List.pairwise_cons.mp (List.pairwise_append.mp hl).2.1).1 other hother)

/-! ### What a copy goes for -/

theorem group_sorted (hs : s.Keyed) (copy : Note) :
    (s.group copy).Pairwise (fun a b => a.id < b.id) := by
  unfold Shelf.group
  exact (live_sorted hs).filter _

/-- A survivor is an original, or a sibling where there is no original. -/
theorem survivorOf_cases (h : s.survivorOf everywhere copy = some survivor) :
    s.byOriginal everywhere copy = some survivor ∨
      (s.byOriginal everywhere copy = none ∧ s.bySibling everywhere copy = some survivor) := by
  unfold Shelf.survivorOf at h
  cases horiginal : s.byOriginal everywhere copy with
  | some original =>
    rw [horiginal] at h
    exact .inl h
  | none =>
    rw [horiginal] at h
    exact .inr ⟨rfl, h⟩

theorem survivorOf_group (h : s.survivorOf everywhere copy = some survivor) :
    survivor ∈ s.group copy ∧ survivor.id ≠ copy.id := by
  obtain h | ⟨-, h⟩ := survivorOf_cases h
  · refine ⟨List.mem_of_find?_eq_some h, ?_⟩
    have hp := List.find?_some h
    simp only [Note.isOriginalFor, Bool.and_eq_true, decide_eq_true_eq] at hp
    exact hp.1.2
  · refine ⟨List.mem_of_find?_eq_some h, ?_⟩
    have hp := List.find?_some h
    simp only [Note.isSiblingFor, Bool.and_eq_true, decide_eq_true_eq] at hp
    exact ne_of_lt hp.1.2

/-- The same originals stand in for two copies of one class. -/
theorem isOriginalFor_of_sibling (hsibling : Note.isSiblingFor everywhere copy survivor = true)
    (h : Note.isOriginalFor everywhere survivor other = true) (hne : other.id ≠ copy.id) :
    Note.isOriginalFor everywhere copy other = true := by
  simp only [Note.isOriginalFor, Note.isSiblingFor, Bool.and_eq_true, Bool.or_eq_true,
    decide_eq_true_eq] at *
  refine ⟨⟨h.1.1, hne⟩, ?_⟩
  obtain heverywhere | hsame := hsibling.2
  · exact .inl heverywhere
  · refine h.2.imp_right (fun hother => ?_)
    rw [hother, hsame]
    rfl

/-- So do the same siblings. -/
theorem isSiblingFor_trans (hsibling : Note.isSiblingFor everywhere copy survivor = true)
    (h : Note.isSiblingFor everywhere survivor other = true) :
    Note.isSiblingFor everywhere copy other = true := by
  simp only [Note.isSiblingFor, Bool.and_eq_true, Bool.or_eq_true, decide_eq_true_eq] at *
  refine ⟨⟨h.1.1, lt_trans h.1.2 hsibling.1.2⟩, ?_⟩
  obtain heverywhere | hother := h.2
  · exact .inl heverywhere
  · refine hsibling.2.imp_right (fun hsame => ?_)
    rw [hother, hsame]
    rfl

/-- What a copy goes for does not go. -/
theorem survivor_stays (hs : s.Keyed) (hcopy : copy ∈ s.liveCopies)
    (h : s.survivorOf everywhere copy = some survivor) (hsurvivor : survivor.isCopy = true) :
    s.survivorOf everywhere survivor = none := by
  have hgroup := (mem_group hcopy).mp (survivorOf_group h).1
  have hsurvivorCopy : survivor ∈ s.liveCopies := mem_liveCopies.mpr ⟨hgroup.1, hsurvivor⟩
  -- The two have one group.
  have hmem (other : Note) : other ∈ s.group survivor → other ∈ s.group copy := by
    rw [mem_group hcopy, mem_group hsurvivorCopy, hgroup.2]
    exact fun h => h
  have hiscopy := (mem_liveCopies.mp hcopy).2
  obtain h | ⟨hnone, h⟩ := survivorOf_cases h
  · have hp := List.find?_some h
    simp [Note.isOriginalFor, hsurvivor] at hp
  · have hsibling := List.find?_some h
    cases hnext : s.survivorOf everywhere survivor with
    | none => rfl
    | some other =>
      exfalso
      obtain hother | ⟨-, hother⟩ := survivorOf_cases hnext
      · -- An original for the survivor is one for the copy.
        have hp := List.find?_some hother
        have hotherMem := hmem other (List.mem_of_find?_eq_some hother)
        have hne : other.id ≠ copy.id := by
          intro heq
          have heq := live_eq_of_id hs ((mem_group hcopy).mp hotherMem).1
            (mem_liveCopies.mp hcopy).1 heq
          rw [heq] at hp
          simp [Note.isOriginalFor, hiscopy] at hp
        unfold Shelf.byOriginal at hnone
        rw [List.find?_eq_none] at hnone
        exact hnone other hotherMem (isOriginalFor_of_sibling hsibling hp hne)
      · -- A lower copy would have been found first.
        have hp := List.find?_some hother
        have hotherMem := hmem other (List.mem_of_find?_eq_some hother)
        have hlower : other.id < survivor.id := by
          simp only [Note.isSiblingFor, Bool.and_eq_true, decide_eq_true_eq] at hp
          exact hp.1.2
        obtain heq | hlt := find?_lowest (group_sorted hs copy) h hotherMem
          (isSiblingFor_trans hsibling hp)
        · rw [heq] at hlower
          exact lt_irrefl _ hlower
        · exact lt_asymm hlt hlower

/-! ### What goes, and what is pinned for it -/

/-- The copies have an id each, so each is listed once. -/
theorem duplicateCopies_distinct (hs : s.Keyed) :
    (s.duplicateCopies everywhere).Pairwise (fun a b => ¬ compare a.1 b.1 = .eq) := by
  unfold Shelf.duplicateCopies
  rw [List.pairwise_filterMap]
  have hsorted : s.liveCopies.Pairwise (fun a b => a.id < b.id) := (live_sorted hs).filter _
  refine hsorted.imp (fun {a b} hlt entry hentry entry' hentry' => ?_)
  obtain ⟨survivor, -, rfl⟩ := Option.map_eq_some_iff.mp hentry
  obtain ⟨survivor', -, rfl⟩ := Option.map_eq_some_iff.mp hentry'
  rw [compare_eq_iff_eq]
  exact ne_of_lt hlt

theorem doomed_iff (hs : s.Keyed) {k : String} : (s.doomed everywhere)[k]? = some stays ↔
      ∃ copy ∈ s.liveCopies, copy.id = k ∧
        ∃ survivor, s.survivorOf everywhere copy = some survivor ∧ survivor.id = stays := by
  have hmem : (k, stays) ∈ s.duplicateCopies everywhere ↔
      ∃ copy ∈ s.liveCopies, copy.id = k ∧
        ∃ survivor, s.survivorOf everywhere copy = some survivor ∧ survivor.id = stays := by
    unfold Shelf.duplicateCopies
    simp only [List.mem_filterMap, Option.map_eq_some_iff, Prod.mk.injEq]
    constructor
    · rintro ⟨copy, hcopy, survivor, hsurvivor, hk, hstays⟩
      exact ⟨copy, hcopy, hk, survivor, hsurvivor, hstays⟩
    · rintro ⟨copy, hcopy, hk, survivor, hsurvivor, hstays⟩
      exact ⟨copy, hcopy, survivor, hsurvivor, hk, hstays⟩
  rw [← hmem]
  unfold Shelf.doomed
  constructor
  · intro hdoomed
    have hin : k ∈ (s.duplicateCopies everywhere).map Prod.fst := by
      by_contra hout
      rw [Std.ExtTreeMap.getElem?_ofList_of_contains_eq_false (by simpa using hout)] at hdoomed
      cases hdoomed
    obtain ⟨⟨k', stays'⟩, hentry, rfl⟩ := List.mem_map.mp hin
    have hthere := Std.ExtTreeMap.getElem?_ofList_of_mem (compare_eq_iff_eq.mpr rfl)
      (duplicateCopies_distinct hs) hentry
    rw [hthere] at hdoomed
    cases hdoomed
    exact hentry
  · exact Std.ExtTreeMap.getElem?_ofList_of_mem (compare_eq_iff_eq.mpr rfl)
      (duplicateCopies_distinct hs)

/-- The chain of survivors ends where it starts. -/
theorem doomed_stays (hs : s.Keyed) {k : String} (h : (s.doomed everywhere)[k]? = some stays) :
    (s.doomed everywhere)[stays]? = none := by
  obtain ⟨copy, hcopy, rfl, survivor, hsurvivor, rfl⟩ := (doomed_iff hs).mp h
  cases hnext : (s.doomed everywhere)[survivor.id]? with
  | none => rfl
  | some next =>
    obtain ⟨again, hagain, hid, other, hother, -⟩ := (doomed_iff hs).mp hnext
    have hlive := ((mem_group hcopy).mp (survivorOf_group hsurvivor).1).1
    obtain rfl := live_eq_of_id hs (mem_liveCopies.mp hagain).1 hlive hid
    rw [survivor_stays hs hcopy hsurvivor (mem_liveCopies.mp hagain).2] at hother
    cases hother

theorem follow_eq {doomed : KeyMap String} (h : doomed[stays]? = none) (fuel : Nat) :
    Shelf.follow doomed fuel stays = stays := by
  cases fuel with
  | zero => rfl
  | succ fuel => simp [Shelf.follow, h]

/-- What a pinned copy leaves its pin to. -/
theorem mem_toPin (hs : s.Keyed) {id : String} :
    id ∈ s.toPin (s.doomed everywhere) ↔
      ∃ k, (s.doomed everywhere)[k]? = some id ∧ s.isPinned k = true ∧ s.isPinned id = false := by
  have hfold (entries : List (String × String)) (pins : KeySet)
      (hentries : ∀ entry ∈ entries, (s.doomed everywhere)[entry.1]? = some entry.2) :
      id ∈ entries.foldl (fun pins entry =>
          let stays := Shelf.follow (s.doomed everywhere) (s.doomed everywhere).size entry.2
          if s.isPinned entry.1 && !s.isPinned stays then pins.insert stays else pins) pins ↔
        id ∈ pins ∨ ∃ entry ∈ entries, entry.2 = id ∧ s.isPinned entry.1 = true ∧
          s.isPinned id = false := by
    induction entries generalizing pins with
    | nil => simp
    | cons entry entries ih =>
      rw [List.foldl_cons, ih _ (fun entry' h => hentries entry' (List.mem_cons_of_mem _ h)),
        follow_eq (doomed_stays hs (hentries entry (List.mem_cons_self ..)))]
      dsimp only
      by_cases hpins : (s.isPinned entry.1 && !s.isPinned entry.2) = true
      · rw [if_pos hpins, mem_keyInsert]
        simp only [Bool.and_eq_true, Bool.not_eq_true'] at hpins
        constructor
        · rintro ((rfl | hin) | ⟨entry', hentry', h⟩)
          · exact .inr ⟨entry, List.mem_cons_self .., rfl, hpins⟩
          · exact .inl hin
          · exact .inr ⟨entry', List.mem_cons_of_mem _ hentry', h⟩
        · rintro (hin | ⟨entry', hentry', h⟩)
          · exact .inl (.inr hin)
          · obtain rfl | hentry' := List.mem_cons.mp hentry'
            · exact .inl (.inl h.1)
            · exact .inr ⟨entry', hentry', h⟩
      · rw [if_neg hpins]
        refine or_congr_right ?_
        simp only [Bool.and_eq_true, Bool.not_eq_true', not_and, Bool.not_eq_false] at hpins
        constructor
        · rintro ⟨entry', hentry', h⟩
          exact ⟨entry', List.mem_cons_of_mem _ hentry', h⟩
        · rintro ⟨entry', hentry', rfl, hpinned, hunpinned⟩
          obtain rfl | hentry' := List.mem_cons.mp hentry'
          · rw [hpins hpinned] at hunpinned
            cases hunpinned
          · exact ⟨entry', hentry', rfl, hpinned, hunpinned⟩
  unfold Shelf.toPin
  rw [hfold _ _ (fun entry hentry => Std.ExtTreeMap.mem_toList_iff_getElem?_eq_some.mp hentry)]
  constructor
  · rintro (hin | ⟨entry, hentry, rfl, h⟩)
    · simp at hin
    · exact ⟨entry.1, Std.ExtTreeMap.mem_toList_iff_getElem?_eq_some.mp hentry, h⟩
  · rintro ⟨k, hk, h⟩
    exact .inr ⟨(k, id), Std.ExtTreeMap.mem_toList_iff_getElem?_eq_some.mpr hk, rfl, h⟩

end DeskLink.Notes
