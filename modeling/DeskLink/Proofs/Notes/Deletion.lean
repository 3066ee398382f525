import DeskLink.Proofs.Notes.Ranged

/-!
# `DeskLink.Proofs.Notes.Deletion`: refused edits, and deletions

An edit that is refused puts the note back as it was. One that changes
nothing a person sees leaves the note as the closure left it
(`edit_atomic_iff`), which is as it was for every closure over the content.

A deletion is an edit, and its size is checked before its text is cleared.
So a note that is too big to be saved is too big to be deleted:

* `note_edits_iff`: when a refused edit leaves the shelf alone, and when a
  live note of a reachable shelf can be deleted, with a tombstone that is
  sent and let in.
* `long_note_stays`: a note typed up to its bound, through the editor.
-/

set_option autoImplicit false

namespace DeskLink.Notes

variable {n : Note} {count : Nat} {now : Int} {id : String} {s : Shelf}

/-! ### Edits that come to nothing -/

/-- An error, or nothing done. -/
def EditAnswer.nothing : EditAnswer → Bool
  | .tooLong => true
  | .done changed _ => !changed

/-- The changed note is within what crosses the wire. -/
def Note.withinSize (n : Note) : Prop :=
  n.body.utf8ByteSize ≤ maxNoteBytes ∧ n.fitsOnePacket = true

/-- Where the closure leaves what the note says as it was, it leaves the
note as it was. -/
def ChangesContent (before : Note) (change : Note → Note) : Prop :=
  (changedNote before change).withinSize →
    (changedNote before change).sameContent before = true → changedNote before change = before

/-- The ways out of an edit. -/
inductive EditCase (s : Shelf) (id : String) (change : Note → Note) : Shelf × EditAnswer → Prop
  | absent (h : s.notes[id]? = none) : EditCase s id change (s, .done false none)
  | tooLong (before : Note) (h : s.notes[id]? = some before)
      (hlong : ¬(changedNote before change).withinSize) : EditCase s id change (s, .tooLong)
  | unchanged (before : Note) (h : s.notes[id]? = some before)
      (hfits : (changedNote before change).withinSize)
      (hsame : (changedNote before change).sameContent before = true) :
      EditCase s id change
        ({ s with notes := s.notes.insert id (changedNote before change) }, .done false none)
  | saved (before : Note) (h : s.notes[id]? = some before)
      (hfits : (changedNote before change).withinSize)
      (hdiffers : (changedNote before change).sameContent before = false) (s' : Shelf)
      (copy : Option String) : EditCase s id change (s', .done true copy)

theorem editNoteInShelf_cases (s : Shelf) (id : String) (loaded : Option Int)
    (change : Note → Note) (now : Int) :
    EditCase s id change (editNoteInShelf s id loaded change now) := by
  unfold editNoteInShelf
  cases hbefore : s.notes[id]? with
  | none => exact .absent hbefore
  | some before =>
    simp only
    split
    · rename_i hlong
      rw [insert_of_getElem? s.notes hbefore]
      refine .tooLong before hbefore ?_
      rintro ⟨hbody, hfits⟩
      rw [Bool.or_eq_true, decide_eq_true_eq, hfits] at hlong
      cases hlong with
      | inl hlong => omega
      | inr hlong => cases hlong
    · rename_i hshort
      have hfits : (changedNote before change).withinSize := by
        rw [Bool.or_eq_true, not_or, decide_eq_true_eq, Nat.not_lt] at hshort
        exact ⟨hshort.1, by simpa using hshort.2⟩
      split
      · rename_i hsame
        exact .unchanged before hbefore hfits hsame
      · rename_i hdiffers
        have hdiffers' : (changedNote before change).sameContent before = false := by
          simpa using hdiffers
        split
        · exact .saved before hbefore hfits hdiffers' _ _
        · exact .saved before hbefore hfits hdiffers' _ _

/-- An edit that comes to nothing leaves the shelf as it was exactly when
the closure does so with the note. -/
theorem edit_atomic_iff (s : Shelf) (id : String) (loaded : Option Int) (change : Note → Note)
    (now : Int) :
    ((editNoteInShelf s id loaded change now).2.nothing = true →
        (editNoteInShelf s id loaded change now).1 = s) ↔
      ∀ before, s.notes[id]? = some before → ChangesContent before change := by
  have hcase := editNoteInShelf_cases s id loaded change now
  generalize editNoteInShelf s id loaded change now = result at hcase ⊢
  cases hcase with
  | absent hnone =>
    refine ⟨fun _ before hbefore => ?_, fun _ _ => rfl⟩
    rw [hnone] at hbefore
    cases hbefore
  | tooLong before hbefore hlong =>
    refine ⟨fun _ before' hbefore' hfits => ?_, fun _ _ => rfl⟩
    rw [hbefore] at hbefore'
    cases hbefore'
    exact absurd hfits hlong
  | unchanged before hbefore hfits hsame =>
    constructor
    · intro h before' hbefore' _ _
      rw [hbefore] at hbefore'
      cases hbefore'
      have hshelf := congrArg Shelf.notes (h rfl)
      have hstored : (s.notes.insert id (changedNote before change))[id]? = some before := by
        rw [← hbefore]
        exact congrArg (·[id]?) hshelf
      rw [getElem?_keyInsert, if_pos rfl] at hstored
      exact Option.some.inj hstored
    · intro h _
      rw [h before hbefore hfits hsame, insert_of_getElem? s.notes hbefore]
  | saved before hbefore hfits hdiffers s' copy =>
    refine ⟨fun _ before' hbefore' _ hsame => ?_, fun _ hnothing => absurd hnothing (by simp [EditAnswer.nothing])⟩
    rw [hbefore] at hbefore'
    cases hbefore'
    rw [hdiffers] at hsame
    cases hsame

/-! ### The size of a tombstone -/

theorem jsonStringLength_le (text : String) : jsonStringLength text ≤ 2 + 6 * text.length := by
  have hchar (c : Char) : jsonCharLength c ≤ 6 := by
    have hsize := Char.utf8Size_le_four c
    unfold jsonCharLength
    split
    · omega
    · split
      · omega
      · split <;> omega
  have hsum (l : List Char) : (l.map jsonCharLength).sum ≤ 6 * l.length := by
    induction l with
    | nil => exact le_rfl
    | cons c l ih =>
      have hc := hchar c
      rw [List.map_cons, List.sum_cons, List.length_cons]
      omega
  have htext := hsum text.toList
  rw [String.length_toList] at htext
  unfold jsonStringLength
  omega

/-- An `i64` has at most 19 digits, and a sign. -/
theorem jsonIntLength_le {n : Int} (h : inI64 n = true) : jsonIntLength n ≤ 20 := by
  obtain ⟨hmin, hmax⟩ := (inI64_iff n).mp h
  unfold i64Min at hmin
  unfold i64Max at hmax
  have hdigits (k : Nat) (hk : k ≤ 9223372036854775808) : (Nat.repr k).length ≤ 19 :=
    Nat.repr_length k 19 (by omega) (by omega)
  cases n with
  | ofNat k =>
    have hk : (Nat.repr k).length ≤ 19 := hdigits k (by
      have hcast : (Int.ofNat k) = (k : Int) := rfl
      omega)
    show (Nat.repr k).length ≤ 20
    omega
  | negSucc k =>
    have hk := hdigits (k + 1) (by omega)
    have hminus : "-".length = 1 := rfl
    show ("-" ++ Nat.repr (k + 1)).length ≤ 20
    rw [String.length_append]
    omega

theorem jsonBoolLength_le (b : Bool) : jsonBoolLength b ≤ 5 := by
  cases b <;> decide

/-- Eight ancestors at most, with their commas and brackets. -/
theorem jsonAncestors_le {l : List Int} (hlength : l.length ≤ maxAncestors)
    (hnumbers : ∀ m ∈ l, inI64 m = true) : jsonGroupLength (l.map jsonIntLength) ≤ 169 := by
  have hsum (l : List Int) (hnumbers : ∀ m ∈ l, inI64 m = true) :
      (l.map jsonIntLength).sum ≤ 20 * l.length := by
    induction l with
    | nil => exact le_rfl
    | cons m l ih =>
      obtain ⟨hm, hrest⟩ := List.forall_mem_cons.mp hnumbers
      have hlength := jsonIntLength_le hm
      have hsum := ih hrest
      rw [List.map_cons, List.sum_cons, List.length_cons]
      omega
  have htotal := hsum l hnumbers
  have hmax : maxAncestors = 8 := rfl
  unfold jsonGroupLength
  rw [List.length_map]
  omega

/-- The JSON of a note whose numbers are `i64`s, told by its texts. -/
theorem jsonLength_le (hnumbers : n.inI64 = true) (hancestors : n.ancestors.length ≤ maxAncestors) :
    n.jsonLength ≤ 350 + jsonStringLength n.id + jsonStringLength n.title
      + jsonStringLength n.body := by
  obtain ⟨hcreated, hmodified, hparent, hold⟩ := (n.inI64_iff).mp hnumbers
  have hcreated := jsonIntLength_le hcreated
  have hmodified := jsonIntLength_le hmodified
  have hparent := jsonIntLength_le hparent
  have hold := jsonAncestors_le hancestors hold
  have hpinned := jsonBoolLength_le n.pinned
  have hdeleted : jsonBoolLength true = 4 := rfl
  have hkeys : jsonStringLength "id" = 4 ∧ jsonStringLength "title" = 7 ∧
      jsonStringLength "body" = 6 ∧ jsonStringLength "pinned" = 8 ∧
      jsonStringLength "created" = 9 ∧ jsonStringLength "modified" = 10 ∧
      jsonStringLength "parent" = 8 ∧ jsonStringLength "ancestors" = 11 ∧
      jsonStringLength "deleted" = 9 := by decide
  obtain ⟨hid, htitle, hbody, hpin, hcreate, hmod, hpar, hanc, hdel⟩ := hkeys
  unfold Note.jsonLength jsonFieldLength
  rw [hid, htitle, hbody, hpin, hcreate, hmod, hpar, hanc, hdel, hdeleted]
  generalize jsonGroupLength (n.ancestors.map jsonIntLength) = ancestors at hold ⊢
  unfold jsonGroupLength
  -- The last two fields are there or not.
  split <;> split <;>
    simp only [List.cons_append, List.nil_append, List.append_nil, List.sum_cons, List.sum_nil,
      List.length_cons, List.length_nil] <;> omega

/-- A note without texts fits a packet, if its id is valid. -/
theorem fitsOnePacket_tombstone (hnumbers : n.inI64 = true)
    (hancestors : n.ancestors.length ≤ maxAncestors) (hid : n.id.length ≤ maxIdChars)
    (htitle : n.title = "") (hbody : n.body = "") : n.fitsOnePacket = true := by
  have hlength := jsonLength_le hnumbers hancestors
  have hidLength := jsonStringLength_le n.id
  have hempty : jsonStringLength "" = 2 := rfl
  rw [htitle, hbody, hempty] at hlength
  have hmax : maxIdChars = 128 := rfl
  have hpacket : maxPacketBytes - packetOverhead = 40704 := rfl
  unfold Note.fitsOnePacket
  rw [decide_eq_true_eq, hpacket]
  omega

/-! ### Deletions -/

/-- `t` is a tombstone with nothing in it that can be sent and is let in. -/
structure Note.SentDeletion (t : Note) : Prop where
  deleted : t.deleted = true
  title : t.title = ""
  body : t.body = ""
  valid : validNote t = true
  fits : t.fitsOnePacket = true

/-- The delete button's edit succeeds and leaves such a tombstone. -/
def Deletes (s : Shelf) (id : String) (loaded : Option Int) (now : Int) : Prop :=
  ∃ copy t, (editNoteInShelf s id loaded deleteNote now).2 = .done true copy ∧
    (editNoteInShelf s id loaded deleteNote now).1.notes[id]? = some t ∧ t.SentDeletion

theorem changedNote_delete (hlive : n.deleted = false)
    (htitle : n.title.length ≤ maxNoteTitleChars) :
    changedNote n deleteNote = { n with deleted := true } := by
  have hcut : String.ofList (n.title.toList.take maxNoteTitleChars) = n.title :=
    ofList_take_title htitle
  unfold changedNote deleteNote
  simp only [hlive, hcut, Bool.false_and, Bool.false_eq_true, if_false]

/-- The version that the deletion of a note makes is such a tombstone. -/
theorem versionOf_sentDeletion (hn : n.Ranged) (hid : n.id.length ≤ maxIdChars) {base : Int}
    (hbase : inI64 base = true) (hnow : nowReads now = true) (keep : List Int) :
    (versionOf { n with deleted := true } n base keep now).SentDeletion := by
  obtain ⟨hcreated, hmodified, -, hancestors⟩ := (n.inI64_iff).mp hn.numbers
  have hstamp := nextStamp_range n.modified hnow
  have hmin : i64Min ≤ 0 := by decide
  have hnumbers : (versionOf { n with deleted := true } n base keep now).inI64 = true := by
    refine (Note.inI64_iff _).mpr
      ⟨hcreated, (inI64_iff _).mpr ⟨le_trans hmin hstamp.1, hstamp.2⟩, hbase, ?_⟩
    intro m hm
    cases List.mem_cons.mp (mem_ancestorsAfter hm) with
    | inl heq =>
      rw [heq]
      exact hmodified
    | inr hold => exact hancestors m hold
  have hpositive : 0 < max now (i64SaturatingSucc n.modified) := by
    -- The stamp before was not negative, and the new one is later.
    have hold := hn.stamp
    unfold i64SaturatingSucc i64Max
    omega
  have hvalidId : validId n.id = true := (validId_iff n.id).mpr ⟨hn.id_ne, hid, hn.id_plain⟩
  have hempty : "".utf8ByteSize ≤ maxNoteBytes ∧ "".length ≤ maxNoteTitleChars := by decide
  exact {
    deleted := rfl
    title := rfl
    body := rfl
    valid := (validNote_iff _).mpr
      ⟨hvalidId, length_ancestorsAfter keep, hempty.1, hempty.2, hpositive⟩
    fits := fitsOnePacket_tombstone hnumbers (length_ancestorsAfter keep) hid rfl rfl }

/-- A deletion whose size is accepted is made, with a copy of the version
that was typed over or without one. -/
theorem deletes_of_withinSize (hn : s.notes[id]? = some n) (hid : n.id = id)
    (hchanged : changedNote n deleteNote = { n with deleted := true }) (hlive : n.deleted = false)
    (hsize : ({ n with deleted := true } : Note).withinSize) (loaded : Option Int) (now : Int) :
    ∃ copy, (editNoteInShelf s id loaded deleteNote now).2 = .done true copy ∧
      (editNoteInShelf s id loaded deleteNote now).1.notes[id]?
        = some (versionOf { n with deleted := true } n (s.baseOf id) (s.mustKeep id) now) := by
  have hlong : ¬((decide (maxNoteBytes < ({ n with deleted := true } : Note).body.utf8ByteSize) ||
      !({ n with deleted := true } : Note).fitsOnePacket) = true) := by
    obtain ⟨hbody, hfits⟩ := hsize
    rw [hfits, Bool.not_true, Bool.or_false, decide_eq_true_eq]
    omega
  have hdiffers : ¬({ n with deleted := true } : Note).sameContent n = true := by
    rw [sameContent_iff]
    rintro ⟨-, -, -, hdeleted⟩
    rw [hlive] at hdeleted
    cases hdeleted
  have hcopy : n.copyOf.id ≠ id := by
    rw [copyOf_id, hid]
    exact copyId_ne id n.modified
  unfold editNoteInShelf
  rw [hn]
  simp only [hchanged]
  rw [if_neg hlong, if_neg hdiffers]
  split
  · refine ⟨some n.copyOf.id, rfl, ?_⟩
    rw [keepCopy_notes, getElem?_keyInsert, if_neg hcopy, getElem?_keyInsert, if_pos rfl]
  · refine ⟨none, rfl, ?_⟩
    rw [getElem?_keyInsert, if_pos rfl]

/-- A live note of a reachable shelf can be deleted exactly when, with its
text still in it, it is within the size of a note, and its id is not too
long for others. -/
theorem deletes_iff (hs : Reachable s) (hn : s.notes[id]? = some n) (hlive : n.deleted = false)
    (loaded : Option Int) (hnow : nowReads now = true) : Deletes s id loaded now ↔
      ({ n with deleted := true } : Note).withinSize ∧ id.length ≤ maxIdChars := by
  have hranged := hs.ranged
  have hnote := hranged.notes id n hn
  have hid : n.id = id := hranged.keyed id n hn
  have hchanged := changedNote_delete hlive hnote.title
  have hcontent : deleteNote = ofContent delete := rfl
  constructor
  · rintro ⟨copy, t, hdone, ht, hsent⟩
    have hcase := editNoteInShelf_cases s id loaded deleteNote now
    have hranged' : (editNoteInShelf s id loaded deleteNote now).1.Ranged :=
      @ShelfOp.run_ranged s hranged (.edit id loaded delete now) hnow
    have htid : t.id = id := hranged'.keyed id t ht
    obtain ⟨hvalid, -⟩ := (validNote_iff t).mp hsent.valid
    obtain ⟨-, hlength, -⟩ := (validId_iff t.id).mp hvalid
    rw [htid] at hlength
    generalize editNoteInShelf s id loaded deleteNote now = result at hcase hdone
    cases hcase with
    | absent hnone =>
      rw [hnone] at hn
      cases hn
    | tooLong before hbefore hlong => cases hdone
    | unchanged before hbefore hfits hsame => cases hdone
    | saved before hbefore hfits hdiffers s' copy' =>
      rw [hn] at hbefore
      cases hbefore
      rw [hchanged] at hfits
      exact ⟨hfits, hlength⟩
  · rintro ⟨hsize, hlength⟩
    obtain ⟨copy, hdone, hstored⟩ := deletes_of_withinSize hn hid hchanged hlive hsize loaded now
    rw [← hid] at hlength
    exact ⟨copy, _, hdone, hstored,
      versionOf_sentDeletion hnote hlength (hranged.baseOf id) hnow (s.mustKeep id)⟩

/-! ### Both -/

/-- An edit that is refused or does nothing leaves the shelf as it was
exactly when its closure changes what it leaves alike in no other way; and a
live note of a reachable shelf can be deleted exactly when, with its text
still in it, it is within the size of a note, and its id is not too long. -/
theorem note_edits_iff (s : Shelf) :
    (∀ (id : String) (loaded : Option Int) (change : Note → Note) (now : Int),
        ((editNoteInShelf s id loaded change now).2.nothing = true →
            (editNoteInShelf s id loaded change now).1 = s) ↔
          ∀ before, s.notes[id]? = some before → ChangesContent before change) ∧
      (Reachable s → ∀ (id : String) (n : Note) (loaded : Option Int) (now : Int),
        s.notes[id]? = some n → n.deleted = false → nowReads now = true →
          (Deletes s id loaded now ↔
            ({ n with deleted := true } : Note).withinSize ∧ id.length ≤ maxIdChars)) :=
  ⟨fun id loaded change now => edit_atomic_iff s id loaded change now,
    fun hs _ _ loaded _ hn hlive hnow => deletes_iff hs hn hlive loaded hnow⟩

/-! ### A long note -/

/-- The uuid of a note. -/
def noteUuid : String := "11111111-2222-4333-8444-555555555555"

/-- A shelf with one note, made with the body `body`. -/
def madeShelf (body : String) : Shelf := ShelfOp.run {} (.create noteUuid 1 body)

theorem madeShelf_reachable (body : String) : Reachable (madeShelf body) :=
  .op .empty (.create noteUuid 1 body) ⟨by decide, by decide⟩

theorem madeShelf_notes (body : String) :
    (madeShelf body).notes[noteUuid]? = some (createdNote noteUuid 1 body) := by
  have hlive : liveNotes {} = 0 := by decide
  have hcreated : createInShelf {} noteUuid 1 body
      = some { notes := (∅ : KeyMap Note).insert noteUuid (createdNote noteUuid 1 body) } := by
    unfold createInShelf
    rw [hlive]
    rfl
  show ((createInShelf {} noteUuid 1 body).getD {}).notes[noteUuid]? = _
  rw [hcreated]
  show ((∅ : KeyMap Note).insert noteUuid (createdNote noteUuid 1 body))[noteUuid]? = _
  rw [getElem?_keyInsert, if_pos rfl]

/-- A note with a short text can be deleted. -/
theorem note_edits_iff_milk : Deletes (madeShelf "milk") noteUuid none 2 :=
  ((note_edits_iff (madeShelf "milk")).2 (madeShelf_reachable "milk") noteUuid
    (createdNote noteUuid 1 "milk") none 2 (madeShelf_notes "milk") rfl (by decide)).mpr
    ⟨⟨by decide, by decide⟩, by decide⟩

/-- The note with `count` quotes typed into it. -/
def typedNote (count : Nat) : Note :=
  editedNote (createdNote noteUuid 1 "") 0 [] ⟨"", quotes count, false, false⟩ 2

/-- A new note in which `count` quotes were typed. -/
def typedShelf (count : Nat) : Shelf :=
  ShelfOp.run (madeShelf "") (.edit noteUuid none (typed (quotes count)) 2)

theorem typedShelf_reachable (count : Nat) : Reachable (typedShelf count) :=
  .op (madeShelf_reachable "") (.edit noteUuid none (typed (quotes count)) 2)
    (by decide : nowReads 2 = true)

theorem quotes_ne (h : 0 < count) : quotes count ≠ "" := by
  intro hempty
  have hsize := utf8ByteSize_quotes count
  rw [hempty] at hsize
  have hzero : "".utf8ByteSize = 0 := rfl
  omega

/-- What is typed is saved while it fits. -/
theorem typedShelf_notes (hsome : 0 < count) (hbody : count ≤ maxNoteBytes)
    (hfits : 117 + 2 * count < maxPacketBytes - packetOverhead) :
    (typedShelf count).notes[noteUuid]? = some (typedNote count) := by
  have hstored := madeShelf_notes ""
  have hcontent : editedContent (createdNote noteUuid 1 "") (typed (quotes count))
      = ⟨"", quotes count, false, false⟩ := rfl
  have hlength : (createdNote noteUuid 1 "").jsonLength = 117 := by decide
  have hsize : (createdNote noteUuid 1 (quotes count)).fitsOnePacket = true := by
    have hquotes := fitsOnePacket_quotes (createdNote noteUuid 1 "") count
    have hempty : ({ createdNote noteUuid 1 "" with body := "" } : Note)
        = createdNote noteUuid 1 "" := rfl
    rw [hempty, hlength] at hquotes
    exact hquotes.trans (decide_eq_true hfits)
  have hsaves : (createdNote noteUuid 1 "").saves (typed (quotes count)) = true := by
    have hchanged : (createdNote noteUuid 1 "").withContent ⟨"", quotes count, false, false⟩
        = createdNote noteUuid 1 (quotes count) := rfl
    have hdiffers : (createdNote noteUuid 1 (quotes count)).sameContent (createdNote noteUuid 1 "")
        = false := by
      rw [Bool.eq_false_iff, Ne, sameContent_iff]
      exact fun h => quotes_ne hsome h.2.1
    unfold Note.saves Note.accepts
    rw [hcontent, hchanged, hsize, hdiffers, utf8ByteSize_quotes]
    simpa using hbody
  show (editNoteInShelf (madeShelf "") noteUuid none (ofContent (typed (quotes count))) 2).1.notes[
    noteUuid]? = _
  rw [editNoteInShelf_content]
  cases editFromInShelf_eq (madeShelf "") noteUuid (typed (quotes count)) 2 with
  | inl hsaved =>
    obtain ⟨before, hbefore, -, heq⟩ := hsaved
    rw [hstored] at hbefore
    cases hbefore
    rw [heq, hcontent]
    show ((madeShelf "").notes.insert noteUuid _)[noteUuid]? = _
    rw [getElem?_keyInsert, if_pos rfl]
    rfl
  | inr hrefused =>
    have hno := hrefused.1 _ hstored
    rw [hsaves] at hno
    cases hno

/-- A body that fits the packet with its note, but not with the word that
says it is deleted. -/
theorem typedNote_stays (hsome : 0 < count) (hbody : count ≤ maxNoteBytes)
    (hfits : 117 + 2 * count < maxPacketBytes - packetOverhead)
    (hlong : maxPacketBytes - packetOverhead ≤ 148 + 2 * count) :
    (editNoteInShelf (typedShelf count) noteUuid none deleteNote 3).2 = .tooLong := by
  have hlength : ({ typedNote 0 with deleted := true } : Note).jsonLength = 148 := by decide
  have hdeleted : changedNote (typedNote count) deleteNote
      = { ({ typedNote 0 with deleted := true } : Note) with body := quotes count } := rfl
  have hbig : (changedNote (typedNote count) deleteNote).fitsOnePacket = false := by
    have hquotes := fitsOnePacket_quotes { typedNote 0 with deleted := true } count
    have hempty : ({ ({ typedNote 0 with deleted := true } : Note) with body := "" } : Note)
        = { typedNote 0 with deleted := true } := rfl
    rw [hempty, hlength] at hquotes
    rw [hdeleted, hquotes]
    exact decide_eq_false (Nat.not_lt.mpr hlong)
  unfold editNoteInShelf
  rw [typedShelf_notes hsome hbody hfits]
  simp [hbig]

/-- 20,290 quotes are such a body: the size is checked before the text is
cleared. -/
theorem long_note_stays :
    Reachable (typedShelf 20290) ∧
      (typedShelf 20290).notes[noteUuid]? = some (typedNote 20290) ∧
      (editNoteInShelf (typedShelf 20290) noteUuid none deleteNote 3).2 = .tooLong ∧
      ¬Deletes (typedShelf 20290) noteUuid none 3 := by
  have hanswer := typedNote_stays (by decide : 0 < 20290) (by decide) (by decide) (by decide)
  refine ⟨typedShelf_reachable 20290, typedShelf_notes (by decide) (by decide) (by decide),
    hanswer, ?_⟩
  rintro ⟨copy, t, hdone, -, -⟩
  rw [hanswer] at hdone
  cases hdone

end DeskLink.Notes
