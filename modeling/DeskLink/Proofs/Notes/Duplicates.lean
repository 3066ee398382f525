import DeskLink.Proofs.Notes.Survivors

/-!
# `DeskLink.Proofs.Notes.Duplicates`: removing copies loses nothing

The edits that pin and delete can be refused, each for the size of its note:
`Note.accepts`. `left_of_live` says what is left of every note.

`duplicates_removed_iff`: what the live notes say, and every note that is no copy,
stays; a second run changes nothing; and the pins stay exactly when each removed
pinned copy leaves a note that is pinned or accepts the pin.
-/

set_option autoImplicit false

namespace DeskLink.Notes

variable {s : Shelf} {everywhere : Bool} {copy survivor : Note}

/-! ### Edits that are refused or saved -/

/-- The note with the change is within what crosses the wire. -/
def Note.accepts (n : Note) (change : Content → Content) : Bool :=
  (editedContent n change).body.utf8ByteSize ≤ maxNoteBytes &&
    (n.withContent (editedContent n change)).fitsOnePacket

/-- The change would change something, and is accepted. -/
def Note.saves (n : Note) (change : Content → Content) : Bool :=
  n.accepts change && !(n.withContent (editedContent n change)).sameContent n

/-- The version an edit leaves, of the note stored under `id`. -/
def Shelf.edited (s : Shelf) (change : Content → Content) (clock : String → Int) (id : String)
    (n : Note) : Note :=
  if n.saves change then
    editedNote n (s.baseOf id) (s.mustKeep id) (editedContent n change) (clock id)
  else n

/-- An edit without an editor makes no copies. -/
theorem editFromInShelf_eq (s : Shelf) (id : String) (change : Content → Content) (now : Int) :
    (∃ before, s.notes[id]? = some before ∧ before.saves change = true ∧
        editFromInShelf s id none change now = .saved (s.put id
          (editedNote before (s.baseOf id) (s.mustKeep id) (editedContent before change) now)) none) ∨
      ((∀ before, s.notes[id]? = some before → before.saves change = false) ∧
        (editFromInShelf s id none change now = .tooLong ∨
          editFromInShelf s id none change now = .unchanged)) := by
  unfold editFromInShelf Note.saves Note.accepts
  cases s.notes[id]? with
  | none => exact .inr ⟨by simp, .inr rfl⟩
  | some before =>
    dsimp only
    by_cases hlong : (decide (maxNoteBytes < (editedContent before change).body.utf8ByteSize) ||
        !(before.withContent (editedContent before change)).fitsOnePacket) = true
    · rw [if_pos hlong]
      refine .inr ⟨?_, .inl rfl⟩
      rintro _ ⟨⟩
      rw [Bool.or_eq_true, decide_eq_true_eq, Bool.not_eq_true'] at hlong
      obtain hlong | hlong := hlong
      · simp [Nat.not_le.mpr hlong]
      · simp [hlong]
    · rw [if_neg hlong]
      rw [Bool.or_eq_true, decide_eq_true_eq, Bool.not_eq_true', not_or, Nat.not_lt,
        Bool.not_eq_false] at hlong
      cases hsame : (before.withContent (editedContent before change)).sameContent before with
      | true =>
        refine .inr ⟨?_, .inr (if_pos rfl)⟩
        rintro _ ⟨⟩
        simp [hsame]
      | false =>
        refine .inl ⟨before, rfl, by simp [hlong, hsame], ?_⟩
        simp [overtaken, Shelf.put]

/-- The shelf with the note under `id` edited. -/
def Shelf.editAt (s : Shelf) (change : Content → Content) (clock : String → Int) (id : String) :
    Shelf :=
  match s.notes[id]? with
  | none => s
  | some n => s.put id (s.edited change clock id n)

section Editing

variable {change : Content → Content} {clock : String → Int} {id k : String}

theorem editAt_notes :
    (s.editAt change clock id).notes[k]?
      = if k = id then s.notes[k]?.map (s.edited change clock k) else s.notes[k]? := by
  unfold Shelf.editAt
  cases hid : s.notes[id]? with
  | none =>
    by_cases hk : k = id
    · rw [if_pos hk, hk, hid]
      rfl
    · rw [if_neg hk]
  | some n =>
    show (s.notes.insert id _)[k]? = _
    rw [getElem?_keyInsert]
    by_cases hk : k = id
    · rw [if_pos hk, if_pos hk.symm, hk, hid]
      rfl
    · rw [if_neg hk, if_neg (Ne.symm hk)]

/-- An edit moves no mark, so the next one is made from the same versions. -/
theorem editAt_edited (change' : Content → Content) (clock' : String → Int) :
    (s.editAt change clock id).edited change' clock' = s.edited change' clock' := by
  unfold Shelf.editAt
  split <;> rfl

theorem editAt_unsaved (h : ∀ before, s.notes[id]? = some before → before.saves change = false) :
    s.editAt change clock id = s := by
  unfold Shelf.editAt
  cases hid : s.notes[id]? with
  | none => rfl
  | some n =>
    dsimp only
    rw [Shelf.edited, h n hid, if_neg (by simp)]
    unfold Shelf.put
    rw [insert_of_getElem? _ hid]

theorem editNext_fst (done : Shelf × List String) :
    (editNext change clock done id).1 = done.1.editAt change clock id := by
  unfold editNext
  obtain ⟨before, hbefore, hsaves, heq⟩ | ⟨hunsaved, heq | heq⟩ :=
    editFromInShelf_eq done.1 id change (clock id)
  · rw [heq]
    show _ = Shelf.editAt _ _ _ _
    rw [Shelf.editAt, hbefore]
    dsimp only
    rw [Shelf.edited, hsaves, if_pos rfl]
  · rw [heq, editAt_unsaved hunsaved]
  · rw [heq, editAt_unsaved hunsaved]

theorem editNext_unsaved {done : Shelf × List String}
    (h : ∀ before, done.1.notes[id]? = some before → before.saves change = false) :
    editNext change clock done id = done := by
  unfold editNext
  obtain ⟨before, hbefore, hsaves, -⟩ | ⟨-, heq | heq⟩ :=
    editFromInShelf_eq done.1 id change (clock id)
  · rw [h before hbefore] at hsaves
    cases hsaves
  · rw [heq]
  · rw [heq]

/-- Each note is edited from what it was. -/
theorem editEach_notes {ids : List String} (hids : ids.Nodup) :
    (editEach change clock s ids).1.notes[k]?
        = (if k ∈ ids then s.notes[k]?.map (s.edited change clock k) else s.notes[k]?) ∧
      ∀ change' clock', (editEach change clock s ids).1.edited change' clock'
        = s.edited change' clock' := by
  have hfold (done : Shelf × List String) :
      (ids.foldl (editNext change clock) done).1.notes[k]?
          = (if k ∈ ids then done.1.notes[k]?.map (done.1.edited change clock k)
            else done.1.notes[k]?) ∧
        ∀ change' clock', (ids.foldl (editNext change clock) done).1.edited change' clock'
          = done.1.edited change' clock' := by
    induction ids generalizing done with
    | nil => exact ⟨by simp, fun _ _ => rfl⟩
    | cons id ids ih =>
      rw [List.nodup_cons] at hids
      obtain ⟨hnotes, hedited⟩ := ih hids.2 (editNext change clock done id)
      rw [List.foldl_cons]
      rw [editNext_fst] at hnotes hedited
      refine ⟨?_, fun change' clock' => (hedited change' clock').trans (editAt_edited _ _)⟩
      rw [hnotes, editAt_notes, editAt_edited]
      by_cases hk : k = id
      · simp [hk, hids.1]
      · simp [hk]
  exact hfold (s, [])

/-- Where nothing is accepted, nothing happens. -/
theorem editEach_unsaved {ids : List String}
    (h : ∀ id ∈ ids, ∀ before, s.notes[id]? = some before → before.saves change = false) :
    editEach change clock s ids = (s, []) := by
  unfold editEach
  induction ids with
  | nil => rfl
  | cons id ids ih =>
    rw [List.foldl_cons, editNext_unsaved (h id (List.mem_cons_self ..))]
    exact ih (fun id' hid' => h id' (List.mem_cons_of_mem _ hid'))

end Editing

/-! ### What is left -/

section After

variable {clock : String → Int} {n n' copy copy' : Note} {k : String}

theorem not_doomed_of_mem_toPin (hs : s.Keyed) {id : String}
    (h : id ∈ s.toPin (s.doomed everywhere)) : id ∉ s.doomed everywhere := by
  obtain ⟨k, hk, -⟩ := (mem_toPin hs).mp h
  rw [Std.ExtTreeMap.mem_iff_isSome_getElem?, doomed_stays hs hk]
  simp

/-- What a removal leaves under each id. -/
theorem removed_getElem? (hs : s.Keyed) (k : String) :
    (removeDuplicatesIn s everywhere clock).1.notes[k]? =
      if k ∈ s.doomed everywhere then s.notes[k]?.map (s.edited delete clock k)
      else if k ∈ s.toPin (s.doomed everywhere) then s.notes[k]?.map (s.edited pin clock k)
      else s.notes[k]? := by
  have hpins : (s.toPin (s.doomed everywhere)).toList.Nodup :=
    Std.ExtTreeSet.distinct_toList.imp (fun hne heq => hne (compare_eq_iff_eq.mpr heq))
  have hkeys : (s.doomed everywhere).keys.Nodup := Std.ExtTreeMap.nodup_keys
  have hpinned := @editEach_notes s pin clock k _ hpins
  have hdeleted := @editEach_notes (editEach pin clock s (s.toPin (s.doomed everywhere)).toList).1
    delete clock k _ hkeys
  unfold removeDuplicatesIn
  rw [hdeleted.1, hpinned.1, hpinned.2]
  simp only [Std.ExtTreeMap.mem_keys, Std.ExtTreeSet.mem_toList]
  by_cases hk : k ∈ s.doomed everywhere
  · have hout : k ∉ s.toPin (s.doomed everywhere) := fun hin => not_doomed_of_mem_toPin hs hin hk
    rw [if_pos hk, if_pos hk, if_neg hout]
  · rw [if_neg hk, if_neg hk]

/-- The copy goes: it is listed, and its deletion is accepted. -/
def Shelf.Goes (s : Shelf) (everywhere : Bool) (n : Note) : Prop :=
  n.id ∈ s.doomed everywhere ∧ n.accepts delete = true

/-- The note is left a pin, and accepts it. -/
def Shelf.TakesPin (s : Shelf) (everywhere : Bool) (n : Note) : Prop :=
  n.id ∈ s.toPin (s.doomed everywhere) ∧ n.accepts pin = true

theorem ofList_take_title (htitle : n.title.length ≤ maxNoteTitleChars) :
    String.ofList (n.title.toList.take maxNoteTitleChars) = n.title := by
  rw [List.take_of_length_le (by rw [String.length_toList]; exact htitle), String.ofList_toList]

theorem editedContent_pin (hlive : n.deleted = false)
    (htitle : n.title.length ≤ maxNoteTitleChars) :
    editedContent n pin = ⟨n.title, n.body, true, false⟩ := by
  simp [editedContent, Note.content, pin, hlive, ofList_take_title htitle]

theorem editedContent_delete (hlive : n.deleted = false)
    (htitle : n.title.length ≤ maxNoteTitleChars) :
    editedContent n delete = ⟨n.title, n.body, n.pinned, true⟩ := by
  simp [editedContent, Note.content, delete, hlive, ofList_take_title htitle]

theorem saves_pin (hlive : n.deleted = false) (htitle : n.title.length ≤ maxNoteTitleChars) :
    n.saves pin = (n.accepts pin && !n.pinned) := by
  unfold Note.saves
  rw [editedContent_pin hlive htitle]
  cases hpinned : n.pinned <;> simp [Note.sameContent, Note.withContent, hlive, hpinned]

theorem saves_delete (hlive : n.deleted = false) (htitle : n.title.length ≤ maxNoteTitleChars) :
    n.saves delete = n.accepts delete := by
  unfold Note.saves
  rw [editedContent_delete hlive htitle]
  simp [Note.sameContent, Note.withContent, hlive]

theorem edited_id {change : Content → Content} : (s.edited change clock k n).id = n.id := by
  unfold Shelf.edited
  split <;> rfl

theorem removed_keyed (hs : s.Keyed) : (removeDuplicatesIn s everywhere clock).1.Keyed := by
  intro k n' h
  rw [removed_getElem? hs] at h
  split at h
  · obtain ⟨n, hn, rfl⟩ := Option.map_eq_some_iff.mp h
    rw [edited_id]
    exact hs k n hn
  · split at h
    · obtain ⟨n, hn, rfl⟩ := Option.map_eq_some_iff.mp h
      rw [edited_id]
      exact hs k n hn
    · exact hs k n' h

/-- The two notes say the same under one id. -/
structure Note.Alike (n n' : Note) : Prop where
  id_eq : n'.id = n.id
  title : n'.title = n.title
  body : n'.body = n.body

theorem Note.Alike.isCopy (h : n.Alike n') : n'.isCopy = n.isCopy := by
  unfold Note.isCopy
  rw [h.id_eq, h.title]

theorem Note.Alike.contentKey (h : n.Alike n') : n'.contentKey = n.contentKey := by
  unfold Note.contentKey Note.label
  rw [h.isCopy, h.title, h.body]

/-- What is left of a live note. -/
structure Shelf.Left (s : Shelf) (everywhere : Bool) (n n' : Note) : Prop where
  gone : s.Goes everywhere n → n'.deleted = true
  live : ¬ s.Goes everywhere n → n'.deleted = false
  alike : ¬ s.Goes everywhere n → n.Alike n'
  pinned : ¬ s.Goes everywhere n →
    (n'.pinned = true ↔ n.pinned = true ∨ s.TakesPin everywhere n)
  same : ¬ s.Goes everywhere n → ¬ s.TakesPin everywhere n → n' = n

/-- What becomes of a live note. -/
theorem left_of_live (hs : s.Sound) (hn : n ∈ s.live) :
    ∃ n', (removeDuplicatesIn s everywhere clock).1.notes[n.id]? = some n' ∧
      s.Left everywhere n n' := by
  obtain ⟨hstored, hlive⟩ := (mem_live hs.keyed).mp hn
  have htitle := hs.titles _ _ hstored
  rw [removed_getElem? hs.keyed, hstored]
  by_cases hdoomed : n.id ∈ s.doomed everywhere
  · rw [if_pos hdoomed]
    have hpin : ¬ s.TakesPin everywhere n := fun htakes =>
      not_doomed_of_mem_toPin hs.keyed htakes.1 hdoomed
    refine ⟨_, rfl, ?_⟩
    unfold Shelf.edited
    rw [saves_delete hlive htitle]
    cases haccepts : n.accepts delete with
    | true =>
      have hgoes : s.Goes everywhere n := ⟨hdoomed, haccepts⟩
      rw [if_pos rfl, editedContent_delete hlive htitle]
      exact ⟨fun _ => rfl, fun h => absurd hgoes h, fun h => absurd hgoes h,
        fun h => absurd hgoes h, fun h => absurd hgoes h⟩
    | false =>
      rw [if_neg (by simp)]
      refine ⟨fun hgoes => ?_, fun _ => hlive, fun _ => ⟨rfl, rfl, rfl⟩,
        fun _ => (or_iff_left hpin).symm, fun _ _ => rfl⟩
      rw [hgoes.2] at haccepts
      cases haccepts
  · have hgoes : ¬ s.Goes everywhere n := fun hgoes => hdoomed hgoes.1
    rw [if_neg hdoomed]
    by_cases hpin : n.id ∈ s.toPin (s.doomed everywhere)
    · rw [if_pos hpin]
      refine ⟨_, rfl, ?_⟩
      -- A pin is left to notes that have none.
      have hunpinned : n.pinned = false := by
        obtain ⟨_, _, _, hunpinned⟩ := (mem_toPin hs.keyed).mp hpin
        unfold Shelf.isPinned at hunpinned
        rw [hstored] at hunpinned
        exact hunpinned
      unfold Shelf.edited
      rw [saves_pin hlive htitle, hunpinned]
      cases haccepts : n.accepts pin with
      | true =>
        have htakes : s.TakesPin everywhere n := ⟨hpin, haccepts⟩
        rw [editedContent_pin hlive htitle]
        exact ⟨fun h => absurd h hgoes, fun _ => rfl, fun _ => ⟨rfl, rfl, rfl⟩,
          fun _ => ⟨fun _ => .inr htakes, fun _ => rfl⟩, fun _ h => absurd htakes h⟩
      | false =>
        have htakes : ¬ s.TakesPin everywhere n := fun htakes => by
          rw [htakes.2] at haccepts
          cases haccepts
        exact ⟨fun h => absurd h hgoes, fun _ => hlive, fun _ => ⟨rfl, rfl, rfl⟩,
          fun _ => (or_iff_left htakes).symm, fun _ _ => rfl⟩
    · have htakes : ¬ s.TakesPin everywhere n := fun htakes => hpin htakes.1
      rw [if_neg hpin]
      exact ⟨n, rfl, fun h => absurd h hgoes, fun _ => hlive, fun _ => ⟨rfl, rfl, rfl⟩,
        fun _ => (or_iff_left htakes).symm, fun _ _ => rfl⟩

/-- What is listed, and what a pin is left to, is live. -/
theorem live_of_doomed (hs : s.Keyed) (h : k ∈ s.doomed everywhere) : ∃ n ∈ s.live, n.id = k := by
  rw [Std.ExtTreeMap.mem_iff_isSome_getElem?, Option.isSome_iff_exists] at h
  obtain ⟨stays, hstays⟩ := h
  obtain ⟨copy, hcopy, rfl, -⟩ := (doomed_iff hs).mp hstays
  exact ⟨copy, (mem_liveCopies.mp hcopy).1, rfl⟩

theorem live_of_toPin (hs : s.Keyed) (h : k ∈ s.toPin (s.doomed everywhere)) :
    ∃ n ∈ s.live, n.id = k := by
  obtain ⟨_, hk, -⟩ := (mem_toPin hs).mp h
  obtain ⟨copy, hcopy, -, survivor, hsurvivor, rfl⟩ := (doomed_iff hs).mp hk
  exact ⟨survivor, ((mem_group hcopy).mp (survivorOf_group hsurvivor).1).1, rfl⟩

/-- Nothing comes back to life, and nothing new is made. -/
theorem live_before (hs : s.Sound) (h : n' ∈ (removeDuplicatesIn s everywhere clock).1.live) :
    ∃ n ∈ s.live, ¬ s.Goes everywhere n ∧ s.Left everywhere n n' ∧ n.Alike n' := by
  obtain ⟨hstored, hlive⟩ := (mem_live (removed_keyed hs.keyed)).mp h
  have hbefore : ∃ n ∈ s.live, n.id = n'.id := by
    by_cases hdoomed : n'.id ∈ s.doomed everywhere
    · exact live_of_doomed hs.keyed hdoomed
    · by_cases hpin : n'.id ∈ s.toPin (s.doomed everywhere)
      · exact live_of_toPin hs.keyed hpin
      · rw [removed_getElem? hs.keyed, if_neg hdoomed, if_neg hpin] at hstored
        exact ⟨n', (mem_live hs.keyed).mpr ⟨hstored, hlive⟩, rfl⟩
  obtain ⟨n, hn, hid⟩ := hbefore
  obtain ⟨n'', hn'', hleft⟩ := @left_of_live s everywhere clock n hs hn
  rw [hid, hstored] at hn''
  obtain rfl := Option.some.inj hn''
  have hgoes : ¬ s.Goes everywhere n := fun hgoes => by
    rw [hleft.gone hgoes] at hlive
    cases hlive
  exact ⟨n, hn, hgoes, hleft, hleft.alike hgoes⟩

theorem live_after (hs : s.Sound) (hn : n ∈ s.live) (hgoes : ¬ s.Goes everywhere n) :
    ∃ n' ∈ (removeDuplicatesIn s everywhere clock).1.live,
      s.Left everywhere n n' ∧ n.Alike n' := by
  obtain ⟨n', hn', hleft⟩ := @left_of_live s everywhere clock n hs hn
  have halike := hleft.alike hgoes
  refine ⟨n', (mem_live (removed_keyed hs.keyed)).mpr ⟨?_, hleft.live hgoes⟩, hleft, halike⟩
  rw [halike.id_eq]
  exact hn'

/-! ### A second run -/

theorem Note.Alike.isOriginalFor (hcopy : copy.Alike copy') (h : n.Alike n') :
    Note.isOriginalFor everywhere copy' n' = Note.isOriginalFor everywhere copy n := by
  unfold Note.isOriginalFor
  rw [h.isCopy, h.id_eq, hcopy.id_eq]

theorem Note.Alike.isSiblingFor (hcopy : copy.Alike copy') (h : n.Alike n') :
    Note.isSiblingFor everywhere copy' n' = Note.isSiblingFor everywhere copy n := by
  unfold Note.isSiblingFor
  rw [h.isCopy, h.id_eq, hcopy.id_eq]

section Again

variable {copy' : Note}

theorem group_after (hs : s.Sound) (hcopy : copy ∈ s.liveCopies)
    (hcopy' : copy' ∈ (removeDuplicatesIn s everywhere clock).1.liveCopies)
    (halike : copy.Alike copy') (hn : n ∈ s.group copy) (hgoes : ¬ s.Goes everywhere n) :
    ∃ n' ∈ (removeDuplicatesIn s everywhere clock).1.group copy', n.Alike n' := by
  rw [mem_group hcopy] at hn
  obtain ⟨n', hn', -, hsame⟩ := @live_after s everywhere clock n hs hn.1 hgoes
  refine ⟨n', (mem_group hcopy').mpr ⟨hn', ?_⟩, hsame⟩
  rw [hsame.contentKey, halike.contentKey, hn.2]

theorem group_before (hs : s.Sound) (hcopy : copy ∈ s.liveCopies)
    (hcopy' : copy' ∈ (removeDuplicatesIn s everywhere clock).1.liveCopies)
    (halike : copy.Alike copy') {n' : Note}
    (hn' : n' ∈ (removeDuplicatesIn s everywhere clock).1.group copy') :
    ∃ n ∈ s.group copy, n.Alike n' := by
  rw [mem_group hcopy'] at hn'
  obtain ⟨n, hn, -, -, hsame⟩ := live_before hs hn'.1
  refine ⟨n, (mem_group hcopy).mpr ⟨hn, ?_⟩, hsame⟩
  rw [← hsame.contentKey, ← halike.contentKey, hn'.2]

/-- What is found first and stays is found first again. -/
theorem found_after (hs : s.Sound) (hcopy : copy ∈ s.liveCopies)
    (hcopy' : copy' ∈ (removeDuplicatesIn s everywhere clock).1.liveCopies)
    (halike : copy.Alike copy') {p p' : Note → Bool}
    (hp : ∀ n n', n.Alike n' → p' n' = p n) {found found' : Note}
    (hfound : (s.group copy).find? p = some found) (hgoes : ¬ s.Goes everywhere found)
    (hfound' : ((removeDuplicatesIn s everywhere clock).1.group copy').find? p' = some found') :
    found.id = found'.id := by
  -- Each has a counterpart on the other shelf, and neither is lower.
  obtain ⟨n', hn', hsame⟩ := group_after hs hcopy hcopy' halike
    (List.mem_of_find?_eq_some hfound) hgoes
  obtain ⟨n, hn, hsame'⟩ := group_before hs hcopy hcopy' halike
    (List.mem_of_find?_eq_some hfound')
  have hlow := find?_lowest (group_sorted hs.keyed copy) hfound hn
    (by rw [← hp n found' hsame']; exact List.find?_some hfound')
  have hlow' := find?_lowest (group_sorted (removed_keyed hs.keyed) copy') hfound' hn'
    (by rw [hp found n' hsame]; exact List.find?_some hfound)
  have hle : found.id ≤ found'.id := by
    rw [hsame'.id_eq]
    exact hlow.elim (fun h => h ▸ le_rfl) le_of_lt
  have hle' : found'.id ≤ found.id := by
    rw [← hsame.id_eq]
    exact hlow'.elim (fun h => h ▸ le_rfl) le_of_lt
  exact le_antisymm hle hle'

/-- A copy that is listed again was listed before, for the same note. -/
theorem survivorOf_before (hs : s.Sound) (hcopy : copy ∈ s.liveCopies)
    (hcopy' : copy' ∈ (removeDuplicatesIn s everywhere clock).1.liveCopies)
    (halike : copy.Alike copy') {survivor' : Note}
    (h : (removeDuplicatesIn s everywhere clock).1.survivorOf everywhere copy' = some survivor') :
    ∃ survivor, s.survivorOf everywhere copy = some survivor ∧ survivor.id = survivor'.id := by
  have horiginal (original : Note) (h : s.byOriginal everywhere copy = some original) :
      ¬ s.Goes everywhere original := by
    rintro ⟨hdoomed, -⟩
    have hlive := ((mem_group hcopy).mp (List.mem_of_find?_eq_some h)).1
    rw [Std.ExtTreeMap.mem_iff_isSome_getElem?, Option.isSome_iff_exists] at hdoomed
    obtain ⟨stays, hstays⟩ := hdoomed
    obtain ⟨other, hother, hid, -⟩ := (doomed_iff hs.keyed).mp hstays
    obtain rfl := live_eq_of_id hs.keyed (mem_liveCopies.mp hother).1 hlive hid
    have hp := List.find?_some h
    simp [Note.isOriginalFor, (mem_liveCopies.mp hother).2] at hp
  have hp : ∀ n n', Note.Alike n n' →
      Note.isOriginalFor everywhere copy' n' = Note.isOriginalFor everywhere copy n :=
    fun n n' => halike.isOriginalFor
  have hq : ∀ n n', Note.Alike n n' →
      Note.isSiblingFor everywhere copy' n' = Note.isSiblingFor everywhere copy n :=
    fun n n' => halike.isSiblingFor
  obtain h | ⟨hnone, h⟩ := survivorOf_cases h
  · -- The original that is found now was there.
    obtain ⟨n, hn, hsame⟩ := group_before hs hcopy hcopy' halike (List.mem_of_find?_eq_some h)
    cases hfound : s.byOriginal everywhere copy with
    | none =>
      unfold Shelf.byOriginal at hfound
      rw [List.find?_eq_none] at hfound
      refine absurd ?_ (hfound n hn)
      rw [← hp n survivor' hsame]
      exact List.find?_some h
    | some original =>
      refine ⟨original, by rw [Shelf.survivorOf, hfound]; rfl, ?_⟩
      exact found_after hs hcopy hcopy' halike hp hfound (horiginal original hfound) h
  · -- There is no original now, so there was none, and the lowest sibling stayed.
    obtain ⟨n, hn, hsame⟩ := group_before hs hcopy hcopy' halike (List.mem_of_find?_eq_some h)
    have hnoOriginal : s.byOriginal everywhere copy = none := by
      cases hfound : s.byOriginal everywhere copy with
      | none => rfl
      | some original =>
        obtain ⟨n', hn', hsame'⟩ := group_after hs hcopy hcopy' halike
          (List.mem_of_find?_eq_some hfound) (horiginal original hfound)
        unfold Shelf.byOriginal at hnone
        rw [List.find?_eq_none] at hnone
        refine absurd ?_ (hnone n' hn')
        rw [hp original n' hsame']
        exact List.find?_some hfound
    cases hfound : s.bySibling everywhere copy with
    | none =>
      unfold Shelf.bySibling at hfound
      rw [List.find?_eq_none] at hfound
      refine absurd ?_ (hfound n hn)
      rw [← hq n survivor' hsame]
      exact List.find?_some h
    | some sibling =>
      have hsurvivor : s.survivorOf everywhere copy = some sibling := by
        rw [Shelf.survivorOf, hnoOriginal, hfound]
        rfl
      refine ⟨sibling, hsurvivor, ?_⟩
      have hgoes : ¬ s.Goes everywhere sibling := by
        rintro ⟨hdoomed, -⟩
        have hlisted := (doomed_iff hs.keyed).mpr
          ⟨copy, hcopy, rfl, sibling, hsurvivor, rfl⟩
        rw [Std.ExtTreeMap.mem_iff_isSome_getElem?, doomed_stays hs.keyed hlisted] at hdoomed
        cases hdoomed
      exact found_after hs hcopy hcopy' halike hq hfound hgoes h

/-- What is listed again was refused before. -/
theorem doomed_before (hs : s.Sound) {k stays : String}
    (h : ((removeDuplicatesIn s everywhere clock).1.doomed everywhere)[k]? = some stays) :
    (s.doomed everywhere)[k]? = some stays ∧
      ∃ copy ∈ s.live, s.notes[k]? = some copy ∧ copy.accepts delete = false ∧
        (removeDuplicatesIn s everywhere clock).1.notes[k]? = some copy := by
  obtain ⟨copy', hcopy', rfl, survivor', hsurvivor', rfl⟩ :=
    (doomed_iff (removed_keyed hs.keyed)).mp h
  obtain ⟨hlive', hiscopy⟩ := mem_liveCopies.mp hcopy'
  obtain ⟨copy, hlive, hgoes, hleft, halike⟩ := live_before hs hlive'
  rw [halike.isCopy] at hiscopy
  have hcopy : copy ∈ s.liveCopies := mem_liveCopies.mpr ⟨hlive, hiscopy⟩
  obtain ⟨survivor, hsurvivor, hid⟩ := survivorOf_before hs hcopy hcopy' halike hsurvivor'
  have hdoomed : (s.doomed everywhere)[copy'.id]? = some survivor'.id :=
    (doomed_iff hs.keyed).mpr ⟨copy, hcopy, halike.id_eq.symm, survivor, hsurvivor, hid⟩
  have hin : copy.id ∈ s.doomed everywhere := by
    rw [← halike.id_eq, Std.ExtTreeMap.mem_iff_isSome_getElem?, hdoomed]
    rfl
  have hsame : copy' = copy := hleft.same hgoes
    (fun htakes => not_doomed_of_mem_toPin hs.keyed htakes.1 hin)
  refine ⟨hdoomed, copy, hlive, ?_, ?_, ?_⟩
  · rw [hsame]
    exact ((mem_live hs.keyed).mp hlive).1
  · cases haccepts : copy.accepts delete with
    | false => rfl
    | true => exact absurd ⟨hin, haccepts⟩ hgoes
  · rw [← hsame]
    exact ((mem_live (removed_keyed hs.keyed)).mp hlive').1

/-- Removing duplicates again does nothing. -/
theorem removed_again (hs : s.Sound) (clock' : String → Int) :
    removeDuplicatesIn (removeDuplicatesIn s everywhere clock).1 everywhere clock'
      = ((removeDuplicatesIn s everywhere clock).1, []) := by
  have hkeyed : (removeDuplicatesIn s everywhere clock).1.Keyed := removed_keyed hs.keyed
  -- Every pin and every deletion is refused as it was before.
  have hpins : editEach pin clock' (removeDuplicatesIn s everywhere clock).1
      ((removeDuplicatesIn s everywhere clock).1.toPin
        ((removeDuplicatesIn s everywhere clock).1.doomed everywhere)).toList
      = ((removeDuplicatesIn s everywhere clock).1, []) := by
    refine editEach_unsaved (fun id hid n' hn' => ?_)
    rw [Std.ExtTreeSet.mem_toList, mem_toPin hkeyed] at hid
    obtain ⟨k, hk, hpinned, hunpinned⟩ := hid
    obtain ⟨hdoomed, copy, -, hcopy, -, hcopy'⟩ := doomed_before hs hk
    obtain ⟨listed, hlisted, -, survivor, hsurvivor, rfl⟩ := (doomed_iff hs.keyed).mp hdoomed
    have hlive := ((mem_group hlisted).mp (survivorOf_group hsurvivor).1).1
    obtain ⟨hstored, hsurvivorLive⟩ := (mem_live hs.keyed).mp hlive
    obtain ⟨left, hleftStored, hleft⟩ := @left_of_live s everywhere clock survivor hs hlive
    rw [hleftStored] at hn'
    obtain rfl := Option.some.inj hn'
    have hgoes : ¬ s.Goes everywhere survivor := by
      rintro ⟨hin, -⟩
      rw [Std.ExtTreeMap.mem_iff_isSome_getElem?, doomed_stays hs.keyed hdoomed] at hin
      cases hin
    -- It has no pin now, so it had none, and did not take one.
    have hnoPin : ¬ (survivor.pinned = true ∨ s.TakesPin everywhere survivor) := by
      rw [← hleft.pinned hgoes]
      unfold Shelf.isPinned at hunpinned
      rw [hleftStored] at hunpinned
      exact Bool.eq_false_iff.mp hunpinned
    rw [not_or, Bool.not_eq_true] at hnoPin
    have hin : survivor.id ∈ s.toPin (s.doomed everywhere) := by
      refine (mem_toPin hs.keyed).mpr ⟨k, hdoomed, ?_, ?_⟩
      · unfold Shelf.isPinned at hpinned ⊢
        rw [hcopy'] at hpinned
        rw [hcopy]
        exact hpinned
      · unfold Shelf.isPinned
        rw [hstored]
        exact hnoPin.1
    rw [hleft.same hgoes hnoPin.2, saves_pin hsurvivorLive (hs.titles _ _ hstored)]
    cases haccepts : survivor.accepts pin with
    | false => rfl
    | true => exact absurd ⟨hin, haccepts⟩ hnoPin.2
  have hdeletes : editEach delete clock' (removeDuplicatesIn s everywhere clock).1
      ((removeDuplicatesIn s everywhere clock).1.doomed everywhere).keys
      = ((removeDuplicatesIn s everywhere clock).1, []) := by
    refine editEach_unsaved (fun k hk n' hn' => ?_)
    rw [Std.ExtTreeMap.mem_keys, Std.ExtTreeMap.mem_iff_isSome_getElem?,
      Option.isSome_iff_exists] at hk
    obtain ⟨stays, hstays⟩ := hk
    obtain ⟨-, copy, hlive, hstored, haccepts, hcopy'⟩ := doomed_before hs hstays
    rw [hcopy'] at hn'
    obtain rfl := Option.some.inj hn'
    rw [saves_delete ((mem_live hs.keyed).mp hlive).2 (hs.titles _ _ hstored)]
    exact haccepts
  unfold removeDuplicatesIn at hpins hdeletes ⊢
  dsimp only at hpins hdeletes ⊢
  rw [hpins]
  dsimp only
  rw [hdeletes]
  rfl

end Again

end After

/-! ### Nothing is lost -/

/-- Removing the duplicates loses nothing. -/
structure RemovesLossless (s : Shelf) (everywhere : Bool) (clock : String → Int) : Prop where
  keys : ∀ key, (∃ n ∈ (removeDuplicatesIn s everywhere clock).1.live, n.contentKey = key) ↔
    ∃ n ∈ s.live, n.contentKey = key
  originals : ∀ n ∈ s.live, n.isCopy = false →
    ∃ n' ∈ (removeDuplicatesIn s everywhere clock).1.live, n.Alike n'
  pins : ∀ copy ∈ s.liveCopies, copy.pinned = true →
    (∀ n' ∈ (removeDuplicatesIn s everywhere clock).1.live, n'.id ≠ copy.id) →
    ∃ n' ∈ (removeDuplicatesIn s everywhere clock).1.live,
      n'.pinned = true ∧ n'.contentKey = copy.contentKey
  chain : ∀ k stays : String, (s.doomed everywhere)[k]? = some stays →
    (s.doomed everywhere)[Shelf.follow (s.doomed everywhere) (s.doomed everywhere).size stays]?
      = none
  again : ∀ clock', removeDuplicatesIn (removeDuplicatesIn s everywhere clock).1 everywhere clock'
    = ((removeDuplicatesIn s everywhere clock).1, [])

/-- Each pinned copy that goes leaves a note that says the same and is pinned, or
accepts the pin it is left. -/
def Shelf.PinsFit (s : Shelf) (everywhere : Bool) : Prop :=
  ∀ copy ∈ s.liveCopies, copy.pinned = true → s.Goes everywhere copy →
    ∃ n ∈ s.live, n.contentKey = copy.contentKey ∧ ¬ s.Goes everywhere n ∧
      (n.pinned = true ∨ s.TakesPin everywhere n)

section Lossless

variable {clock : String → Int}

/-- What is listed leaves behind a note that says the same. -/
theorem survives (hs : s.Sound) {n : Note} (hn : n ∈ s.live) :
    ∃ n' ∈ s.live, n'.contentKey = n.contentKey ∧ ¬ s.Goes everywhere n' := by
  by_cases hgoes : s.Goes everywhere n
  · have hdoomed := hgoes.1
    rw [Std.ExtTreeMap.mem_iff_isSome_getElem?, Option.isSome_iff_exists] at hdoomed
    obtain ⟨stays, hstays⟩ := hdoomed
    obtain ⟨copy, hcopy, hid, survivor, hsurvivor, rfl⟩ := (doomed_iff hs.keyed).mp hstays
    obtain rfl := live_eq_of_id hs.keyed (mem_liveCopies.mp hcopy).1 hn hid
    obtain ⟨hlive, hkey⟩ := (mem_group hcopy).mp (survivorOf_group hsurvivor).1
    refine ⟨survivor, hlive, hkey, fun hgoes' => ?_⟩
    have hin := hgoes'.1
    rw [Std.ExtTreeMap.mem_iff_isSome_getElem?, doomed_stays hs.keyed hstays] at hin
    cases hin
  · exact ⟨n, hn, rfl, hgoes⟩

theorem keys_kept (hs : s.Sound) (key : String × String) :
    (∃ n ∈ (removeDuplicatesIn s everywhere clock).1.live, n.contentKey = key) ↔
      ∃ n ∈ s.live, n.contentKey = key := by
  constructor
  · rintro ⟨n', hn', rfl⟩
    obtain ⟨n, hn, -, -, halike⟩ := live_before hs hn'
    exact ⟨n, hn, halike.contentKey.symm⟩
  · rintro ⟨n, hn, rfl⟩
    obtain ⟨stays, hstays, hkey, hgoes⟩ := @survives s everywhere hs n hn
    obtain ⟨n', hn', -, halike⟩ := @live_after s everywhere clock stays hs hstays hgoes
    exact ⟨n', hn', by rw [halike.contentKey, hkey]⟩

theorem originals_kept (hs : s.Sound) {n : Note} (hn : n ∈ s.live) (hcopy : n.isCopy = false) :
    ∃ n' ∈ (removeDuplicatesIn s everywhere clock).1.live, n.Alike n' := by
  have hgoes : ¬ s.Goes everywhere n := by
    rintro ⟨hdoomed, -⟩
    obtain ⟨n', hn', hid⟩ := live_of_doomed hs.keyed hdoomed
    rw [Std.ExtTreeMap.mem_iff_isSome_getElem?, Option.isSome_iff_exists] at hdoomed
    obtain ⟨stays, hstays⟩ := hdoomed
    obtain ⟨copy, hiscopy, hid, -⟩ := (doomed_iff hs.keyed).mp hstays
    obtain ⟨hlive, hiscopy⟩ := mem_liveCopies.mp hiscopy
    rw [live_eq_of_id hs.keyed hlive hn hid, hcopy] at hiscopy
    cases hiscopy
  obtain ⟨n', hn', -, halike⟩ := @live_after s everywhere clock n hs hn hgoes
  exact ⟨n', hn', halike⟩

/-- The pins stay exactly when there is room for them. -/
theorem pins_kept_iff (hs : s.Sound) :
    (∀ copy ∈ s.liveCopies, copy.pinned = true →
      (∀ n' ∈ (removeDuplicatesIn s everywhere clock).1.live, n'.id ≠ copy.id) →
      ∃ n' ∈ (removeDuplicatesIn s everywhere clock).1.live,
        n'.pinned = true ∧ n'.contentKey = copy.contentKey) ↔ s.PinsFit everywhere := by
  -- A live copy is gone afterwards exactly when it goes.
  have hgone (copy : Note) (hcopy : copy ∈ s.live) :
      (∀ n' ∈ (removeDuplicatesIn s everywhere clock).1.live, n'.id ≠ copy.id) ↔
        s.Goes everywhere copy := by
    constructor
    · intro hout
      by_contra hgoes
      obtain ⟨n', hn', -, halike⟩ := @live_after s everywhere clock copy hs hcopy hgoes
      exact hout n' hn' halike.id_eq
    · intro hgoes n' hn' hid
      obtain ⟨n, hn, hstays, -, halike⟩ := live_before hs hn'
      rw [live_eq_of_id hs.keyed hn hcopy (by rw [← halike.id_eq, hid])] at hstays
      exact hstays hgoes
  unfold Shelf.PinsFit
  refine forall_congr' fun copy => forall_congr' fun hcopy => forall_congr' fun _ => ?_
  rw [hgone copy (mem_liveCopies.mp hcopy).1]
  refine forall_congr' fun _ => ?_
  constructor
  · rintro ⟨n', hn', hpinned, hkey⟩
    obtain ⟨n, hn, hgoes, hleft, halike⟩ := live_before hs hn'
    exact ⟨n, hn, by rw [← halike.contentKey, hkey], hgoes, (hleft.pinned hgoes).mp hpinned⟩
  · rintro ⟨n, hn, hkey, hgoes, hpin⟩
    obtain ⟨n', hn', hleft, halike⟩ := @live_after s everywhere clock n hs hn hgoes
    exact ⟨n', hn', (hleft.pinned hgoes).mpr hpin, by rw [halike.contentKey, hkey]⟩

end Lossless

/-- Nothing is lost exactly when the pins fit; only a pin can be. -/
theorem duplicates_removed_iff (s : Shelf) (hs : s.Sound) (everywhere : Bool)
    (clock : String → Int) :
    RemovesLossless s everywhere clock ↔ s.PinsFit everywhere := by
  constructor
  · intro h
    exact (pins_kept_iff hs).mp h.pins
  · intro hfit
    refine ⟨keys_kept hs, fun n hn hcopy => originals_kept hs hn hcopy,
      (pins_kept_iff hs).mpr hfit, fun k stays hk => ?_, removed_again hs⟩
    rw [follow_eq (doomed_stays hs.keyed hk)]
    exact doomed_stays hs.keyed hk

/-! ### A pin that does not fit -/

/-- A body of quotes, each of which takes two bytes on the wire. -/
def quotes : Nat → String
  | 0 => ""
  | n + 1 => (quotes n).push '"'

theorem utf8ByteSize_quotes (n : Nat) : (quotes n).utf8ByteSize = n := by
  induction n with
  | zero => rfl
  | succ n ih =>
    have hquote : '"'.utf8Size = 1 := rfl
    rw [quotes, String.utf8ByteSize_push, ih, hquote]

theorem jsonStringLength_quotes (n : Nat) : jsonStringLength (quotes n) = 2 + 2 * n := by
  induction n with
  | zero => decide
  | succ n ih =>
    have hquote : jsonCharLength '"' = 2 := by decide
    unfold jsonStringLength at ih ⊢
    rw [quotes, String.toList_push, List.map_append, List.sum_append]
    simp only [List.map_cons, List.map_nil, List.sum_cons, List.sum_nil, hquote]
    omega

/-- The wire size of a note, told by its body. -/
theorem jsonLength_body (n : Note) (body : String) :
    ({ n with body } : Note).jsonLength + 2
      = ({ n with body := "" } : Note).jsonLength + jsonStringLength body := by
  have hempty : jsonStringLength "" = 2 := by decide
  unfold Note.jsonLength jsonGroupLength jsonFieldLength
  rw [hempty]
  simp only [List.cons_append, List.nil_append, List.sum_cons, List.length_cons]
  omega

/-- A note with eight ancestors, and a pinned copy of it that has none. -/
def longNote (body : String) : Note where
  id := "n"
  title := "Quotes"
  body := body
  pinned := false
  created := 1700000000000
  modified := 1700000000009
  parent := 1700000000008
  ancestors := (List.range 8).map (fun i => (1700000000008 : Int) - i)
  deleted := false

def longCopy (body : String) : Note where
  id := "n~1700000000001"
  title := "Quotes (conflicted copy)"
  body := body
  pinned := true
  created := 1700000000000
  modified := 1700000000001
  parent := 1700000000001
  ancestors := []
  deleted := false

def twoNotes (body : String) : Shelf where
  notes := ((∅ : KeyMap Note).insert "n" (longNote body)).insert "n~1700000000001" (longCopy body)

theorem twoNotes_cases {body : String} {k : String} {n : Note}
    (h : (twoNotes body).notes[k]? = some n) :
    (k = "n" ∧ n = longNote body) ∨ (k = "n~1700000000001" ∧ n = longCopy body) := by
  have h : (((∅ : KeyMap Note).insert "n" (longNote body)).insert "n~1700000000001"
    (longCopy body))[k]? = some n := h
  rw [getElem?_keyInsert, getElem?_keyInsert] at h
  split at h
  · rename_i hk
    exact .inr ⟨hk.symm, (Option.some.inj h).symm⟩
  · split at h
    · rename_i hk
      exact .inl ⟨hk.symm, (Option.some.inj h).symm⟩
    · simp at h

theorem sound_twoNotes (body : String) : (twoNotes body).Sound where
  keyed k n h := by
    obtain ⟨rfl, rfl⟩ | ⟨rfl, rfl⟩ := twoNotes_cases h <;> rfl
  titles k n h := by
    obtain ⟨-, rfl⟩ | ⟨-, rfl⟩ := twoNotes_cases h
    · show "Quotes".length ≤ maxNoteTitleChars
      decide
    · show "Quotes (conflicted copy)".length ≤ maxNoteTitleChars
      decide

section TwoNotes

variable (body : String)

theorem longNote_mem : longNote body ∈ (twoNotes body).live :=
  (mem_live (sound_twoNotes body).keyed).mpr ⟨by
    show (((∅ : KeyMap Note).insert "n" (longNote body)).insert "n~1700000000001"
      (longCopy body))["n"]? = _
    rw [getElem?_keyInsert, if_neg (by decide), getElem?_keyInsert, if_pos rfl], rfl⟩

theorem longCopy_isCopy : (longCopy body).isCopy = true := by
  show ((copyBase "n~1700000000001").isSome &&
    copySuffix.toList.isSuffixOf "Quotes (conflicted copy)".toList) = true
  decide +kernel

theorem longNote_isCopy : (longNote body).isCopy = false := by
  show ((copyBase "n").isSome && copySuffix.toList.isSuffixOf "Quotes".toList) = false
  decide +kernel

theorem longCopy_mem : longCopy body ∈ (twoNotes body).liveCopies :=
  mem_liveCopies.mpr ⟨(mem_live (sound_twoNotes body).keyed).mpr ⟨by
    show (((∅ : KeyMap Note).insert "n" (longNote body)).insert "n~1700000000001"
      (longCopy body))["n~1700000000001"]? = _
    simp, rfl⟩, longCopy_isCopy body⟩

/-- The two say the same. -/
theorem longCopy_contentKey : (longNote body).contentKey = (longCopy body).contentKey := by
  unfold Note.contentKey
  rw [longCopy_isCopy, longNote_isCopy, if_pos rfl, if_neg (by simp)]
  show (if (trimNote "Quotes".toList).isEmpty then (longNote body).label
      else String.ofList (trimNote "Quotes".toList), body)
    = (String.ofList (withoutSuffixes "Quotes (conflicted copy)".length
        "Quotes (conflicted copy)".toList), body)
  have hkey : String.ofList (trimNote "Quotes".toList)
      = String.ofList (withoutSuffixes "Quotes (conflicted copy)".length
        "Quotes (conflicted copy)".toList) := by decide +kernel
  have hempty : (trimNote "Quotes".toList).isEmpty = false := by decide +kernel
  rw [hempty, if_neg (by simp), hkey]

theorem longCopy_doomed (everywhere : Bool) :
    (longCopy body).id ∈ (twoNotes body).doomed everywhere := by
  have hgroup : longNote body ∈ (twoNotes body).group (longCopy body) :=
    (mem_group (longCopy_mem body)).mpr ⟨longNote_mem body, longCopy_contentKey body⟩
  have horiginal : Note.isOriginalFor everywhere (longCopy body) (longNote body) = true := by
    unfold Note.isOriginalFor
    rw [longNote_isCopy]
    show (!false && decide ("n" ≠ "n~1700000000001") &&
      (everywhere || decide ("n" = (copyBase "n~1700000000001").getD ""))) = true
    have hbase : (copyBase "n~1700000000001").getD "" = "n" := by decide +kernel
    simp [hbase]
  cases hfound : (twoNotes body).byOriginal everywhere (longCopy body) with
  | none =>
    unfold Shelf.byOriginal at hfound
    rw [List.find?_eq_none] at hfound
    exact absurd horiginal (hfound _ hgroup)
  | some survivor =>
    have hlisted := (doomed_iff (sound_twoNotes body).keyed).mpr
      ⟨longCopy body, longCopy_mem body, rfl, survivor, by
        rw [Shelf.survivorOf, hfound]
        rfl, rfl⟩
    rw [Std.ExtTreeMap.mem_iff_isSome_getElem?, hlisted]
    rfl

end TwoNotes

theorem fitsOnePacket_quotes (n : Note) (count : Nat) :
    ({ n with body := quotes count } : Note).fitsOnePacket =
      decide (({ n with body := "" } : Note).jsonLength + 2 * count
        < maxPacketBytes - packetOverhead) := by
  have hlength := jsonLength_body n (quotes count)
  rw [jsonStringLength_quotes] at hlength
  unfold Note.fitsOnePacket
  congr 1
  rw [show ({ n with body := quotes count } : Note).jsonLength
    = ({ n with body := "" } : Note).jsonLength + 2 * count by omega]

/-- How many quotes an edit takes. -/
theorem accepts_quotes {f : String → Note} {change : Content → Content} {m : Note} (count : Nat)
    (h : ∀ body, (f body).accepts change = (decide (body.utf8ByteSize ≤ maxNoteBytes) &&
      ({ m with body } : Note).fitsOnePacket)) :
    (f (quotes count)).accepts change = (decide (count ≤ maxNoteBytes) &&
      decide (({ m with body := "" } : Note).jsonLength + 2 * count
        < maxPacketBytes - packetOverhead)) := by
  rw [h, fitsOnePacket_quotes, utf8ByteSize_quotes]

/-- The copy goes, and the note it goes for is too long to be pinned. -/
theorem pin_lost :
    ¬ RemovesLossless (twoNotes (quotes 20228)) false (fun _ => 1700000000020) := by
  intro h
  have hsound := sound_twoNotes (quotes 20228)
  have hcopy : (longCopy (quotes 20228)).accepts delete = true := by
    rw [accepts_quotes (m := { longCopy "" with deleted := true })]
    · decide +kernel
    · intro body
      have hlive := (mem_live (sound_twoNotes body).keyed).mp
        (mem_liveCopies.mp (longCopy_mem body)).1
      unfold Note.accepts
      rw [editedContent_delete rfl ((sound_twoNotes body).titles _ _ hlive.1)]
      rfl
  have hnote : (longNote (quotes 20228)).accepts pin = false := by
    rw [accepts_quotes (m := { longNote "" with pinned := true })]
    · decide +kernel
    · intro body
      have hlive := (mem_live (sound_twoNotes body).keyed).mp (longNote_mem body)
      unfold Note.accepts
      rw [editedContent_pin rfl ((sound_twoNotes body).titles _ _ hlive.1)]
      rfl
  have hgoes : (twoNotes (quotes 20228)).Goes false (longCopy (quotes 20228)) :=
    ⟨longCopy_doomed _ false, hcopy⟩
  obtain ⟨n, hn, -, hstays, hpin⟩ := (pins_kept_iff hsound).mp h.pins _ (longCopy_mem _) rfl hgoes
  obtain ⟨-, rfl⟩ | ⟨-, rfl⟩ := twoNotes_cases ((mem_live hsound.keyed).mp hn).1
  · obtain hpinned | htakes := hpin
    · cases hpinned
    · rw [htakes.2] at hnote
      cases hnote
  · exact hstays hgoes

/-- A note that is not too long takes the pin of its copy. -/
theorem duplicates_removed_iff_milk :
    (twoNotes "milk").isPinned "n" = false ∧
      RemovesLossless (twoNotes "milk") true (fun _ => 1700000000020) := by
  refine ⟨by decide +kernel, (duplicates_removed_iff (twoNotes "milk") (sound_twoNotes "milk") true
    (fun _ => 1700000000020)).mpr ?_⟩
  intro copy hcopy _ _
  have hkey : (longNote "milk").contentKey = copy.contentKey := by
    obtain ⟨hlive, hiscopy⟩ := mem_liveCopies.mp hcopy
    obtain ⟨-, rfl⟩ | ⟨-, rfl⟩ :=
      twoNotes_cases ((mem_live (sound_twoNotes "milk").keyed).mp hlive).1
    · rfl
    · exact longCopy_contentKey "milk"
  refine ⟨longNote "milk", longNote_mem "milk", hkey, fun hgoes => ?_, .inr ⟨?_, ?_⟩⟩
  · exact absurd hgoes.1 (by decide +kernel)
  · exact (mem_toPin (sound_twoNotes "milk").keyed).mpr
      ⟨"n~1700000000001", by decide +kernel, by decide +kernel, by decide +kernel⟩
  · decide +kernel

end DeskLink.Notes
