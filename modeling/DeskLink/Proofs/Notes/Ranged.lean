import DeskLink.Notes.Device
import DeskLink.Proofs.Notes.Caps
import DeskLink.Proofs.Notes.Duplicates
import DeskLink.Proofs.Notes.Lineage

/-!
# `DeskLink.Proofs.Notes.Ranged`: what holds of every reachable shelf

`Shelf.Ranged`: each note is filed under its id, which is not empty and
has no control character in it; its title is within its bound; it names at
most eight ancestors; its stamp is not negative; and all numbers, those of
the marks too, fit an `i64`. The id of a copy may be longer than `maxIdChars`.
Every operation keeps it (`ShelfOp.run_ranged`), so every shelf that comes
about has it (`Reachable.ranged`), and removing its copies is safe
(`shelves_ranged`).
-/

set_option autoImplicit false

namespace DeskLink.Notes

open Lib (isControl)

variable {id : String} {before : Note} {now : Int} {marks : Marks} {s : Shelf}

/-- What holds of every note, whoever made it. -/
structure Note.Ranged (n : Note) : Prop where
  id_ne : n.id ≠ ""
  id_plain : n.id.toList.any isControl = false
  title : n.title.length ≤ maxNoteTitleChars
  ancestors : n.ancestors.length ≤ maxAncestors
  numbers : n.inI64 = true
  stamp : 0 ≤ n.modified

/-- The marks are `i64`s. -/
def Marks.InI64 (marks : Marks) : Prop :=
  ∀ (id : String) (peers : KeyMap Int), marks[id]? = some peers →
    ∀ (p : String) (v : Int), peers[p]? = some v → inI64 v = true

structure Shelf.Ranged (s : Shelf) : Prop where
  keyed : s.Keyed
  notes : ∀ (k : String) (n : Note), s.notes[k]? = some n → n.Ranged
  synced : ∀ (k : String) (v : Int), s.synced[k]? = some v → inI64 v = true
  held : s.held.InI64
  sent : s.sent.InI64

/-! ### Notes -/

theorem inI64_iff (n : Int) : inI64 n = true ↔ i64Min ≤ n ∧ n ≤ i64Max := by
  simp [inI64]

theorem Note.inI64_iff (n : Note) : n.inI64 = true ↔
    Notes.inI64 n.created = true ∧ Notes.inI64 n.modified = true ∧ Notes.inI64 n.parent = true ∧
      ∀ m ∈ n.ancestors, Notes.inI64 m = true := by
  simp only [Note.inI64, Bool.and_eq_true, List.all_eq_true, and_assoc]

theorem validId_iff (id : String) : validId id = true ↔
    id ≠ "" ∧ id.length ≤ maxIdChars ∧ id.toList.any isControl = false := by
  simp only [validId, Bool.and_eq_true, decide_eq_true_eq, Bool.not_eq_true', and_assoc]

theorem validNote_iff (n : Note) : validNote n = true ↔
    validId n.id = true ∧ n.ancestors.length ≤ maxAncestors ∧
      n.body.utf8ByteSize ≤ maxNoteBytes ∧ n.title.length ≤ maxNoteTitleChars ∧
      0 < n.modified := by
  simp only [validNote, Bool.and_eq_true, decide_eq_true_eq, and_assoc]

/-- A note that `valid_note` lets in. -/
theorem Note.Ranged.of_valid {n : Note} (hvalid : validNote n = true) (hnumbers : n.inI64 = true) :
    n.Ranged := by
  obtain ⟨hid, hancestors, -, htitle, hstamp⟩ := (validNote_iff n).mp hvalid
  obtain ⟨hne, -, hplain⟩ := (validId_iff n.id).mp hid
  exact ⟨hne, hplain, htitle, hancestors, hnumbers, le_of_lt hstamp⟩

theorem isControl_digit {c : Char} (hdigit : c.isDigit = true) : ¬isControl c = true := by
  rw [Char.isDigit, Bool.and_eq_true, decide_eq_true_eq, decide_eq_true_eq] at hdigit
  have hlow : 48 ≤ c.toNat := UInt32.le_iff_toNat_le.mp hdigit.1
  have hhigh : c.toNat ≤ 57 := UInt32.le_iff_toNat_le.mp hdigit.2
  simp only [isControl, Bool.or_eq_true, Bool.and_eq_true, decide_eq_true_eq]
  omega

/-- The digits of a stamp are no control characters. -/
theorem toString_plain (m : Int) : (toString m).toList.any isControl = false := by
  rw [List.any_eq_false]
  intro c hc
  cases Lib.mem_toString_int hc with
  | inl hminus =>
    rw [hminus]
    decide
  | inr hdigit => exact isControl_digit hdigit

theorem copyId_toList (id : String) (m : Int) :
    (copyId id m).toList = id.toList ++ '~' :: (toString m).toList := by
  simp [copyId]

/-- A uuid is some characters, none of them a control character. -/
theorem isUuid_plain (h : isUuid id = true) : id ≠ "" ∧ id.toList.any isControl = false := by
  rw [isUuid, Bool.and_eq_true, beq_iff_eq, List.all_eq_true] at h
  obtain ⟨hlength, hall⟩ := h
  constructor
  · intro hempty
    rw [hempty] at hlength
    exact absurd hlength (by decide)
  · rw [List.any_eq_false]
    intro c hc
    have hchar := hall c hc
    simp only [Bool.or_eq_true, beq_iff_eq, Bool.and_eq_true, decide_eq_true_eq] at hchar
    cases hchar with
    | inl hother =>
      cases hother with
      | inl hdash =>
        rw [hdash]
        decide
      | inr hdigit => exact isControl_digit hdigit
    | inr hletter =>
      have hlow : 'a'.toNat ≤ c.toNat := UInt32.le_iff_toNat_le.mp hletter.1
      have hhigh : c.toNat ≤ 'f'.toNat := UInt32.le_iff_toNat_le.mp hletter.2
      have ha : 'a'.toNat = 97 := rfl
      have hf : 'f'.toNat = 102 := rfl
      simp only [isControl, Bool.or_eq_true, Bool.and_eq_true, decide_eq_true_eq]
      omega

theorem Note.Ranged.copyOf {n : Note} (h : n.Ranged) : n.copyOf.Ranged where
  id_ne := by
    intro hempty
    have hlist := congrArg String.toList hempty
    rw [copyOf_id, copyId_toList] at hlist
    simp at hlist
  id_plain := by
    rw [copyOf_id, copyId_toList, List.any_append, List.any_cons, h.id_plain, toString_plain]
    decide
  title := copyOf_title_length n
  ancestors := h.ancestors
  numbers := by
    obtain ⟨hcreated, hmodified, -, hancestors⟩ := (n.inI64_iff).mp h.numbers
    exact (n.copyOf.inI64_iff).mpr ⟨hcreated, hmodified, hmodified, hancestors⟩
  stamp := h.stamp

theorem length_ancestorsAfter (keep : List Int) :
    (ancestorsAfter before keep).length ≤ maxAncestors := by
  unfold ancestorsAfter
  simp only
  split
  · assumption
  · have hkept := List.length_take_le maxAncestors (before.chain.filter (keep.contains ·))
    have hrecent := List.length_take_le
      (maxAncestors - ((before.chain.filter (keep.contains ·)).take maxAncestors).length)
      (before.chain.filter (fun m =>
        !((before.chain.filter (keep.contains ·)).take maxAncestors).contains m))
    rw [List.length_insertionSort, List.length_append]
    omega

/-- The stamp of the next version. -/
theorem nextStamp_range (m : Int) (hnow : nowReads now = true) :
    0 ≤ max now (i64SaturatingSucc m) ∧ max now (i64SaturatingSucc m) ≤ i64Max := by
  simp only [nowReads, Bool.and_eq_true, decide_eq_true_eq] at hnow
  unfold i64SaturatingSucc
  omega

/-- The title is cut. -/
theorem editedContent_title (before : Note) (change : Content → Content) :
    (editedContent before change).title.length ≤ maxNoteTitleChars := by
  show (String.ofList ((change before.content).title.toList.take maxNoteTitleChars)).length ≤ _
  rw [String.length_ofList]
  exact List.length_take_le _ _

theorem Note.Ranged.edited (h : before.Ranged) {base : Int} (hbase : Notes.inI64 base = true)
    (hnow : nowReads now = true) (keep : List Int) (change : Content → Content) :
    (editedNote before base keep (editedContent before change) now).Ranged where
  id_ne := h.id_ne
  id_plain := h.id_plain
  title := by
    show (if (editedContent before change).deleted then ""
      else (editedContent before change).title).length ≤ maxNoteTitleChars
    split
    · decide
    · exact editedContent_title before change
  ancestors := length_ancestorsAfter keep
  numbers := by
    obtain ⟨hcreated, hmodified, -, hancestors⟩ := (before.inI64_iff).mp h.numbers
    have hstamp := nextStamp_range before.modified hnow
    refine (Note.inI64_iff _).mpr ⟨hcreated, (Notes.inI64_iff _).mpr ⟨?_, hstamp.2⟩, hbase, ?_⟩
    · have hmin : i64Min ≤ 0 := by decide
      exact le_trans hmin hstamp.1
    · intro m hm
      cases List.mem_cons.mp (mem_ancestorsAfter hm) with
      | inl heq =>
        rw [heq]
        exact hmodified
      | inr hold => exact hancestors m hold
  stamp := (nextStamp_range before.modified hnow).1

/-! ### Marks -/

theorem Marks.InI64.record (h : marks.InI64) {v : Int} (hv : inI64 v = true) (id peer : String) :
    Marks.InI64 (recordPeer marks id peer v) := by
  intro k peers hk p m hp
  cases recordPeer_some hk hp with
  | inl hnew =>
    rw [hnew.2.2]
    exact hv
  | inr hold =>
    cases hold with
    | inl hother =>
      obtain ⟨-, old, hold, hm⟩ := hother
      exact h k old hold p m hm
    | inr hsame => exact h k peers hsame.2 p m hp

theorem forgetMarks_some {device k : String} {peers : KeyMap Int}
    (h : (forgetMarks marks device)[k]? = some peers) :
    ∃ old, marks[k]? = some old ∧ peers = old.erase device := by
  unfold forgetMarks at h
  rw [Std.ExtTreeMap.getElem?_filter', Std.ExtTreeMap.getElem?_map] at h
  obtain ⟨hmap, -⟩ := Option.filter_eq_some_iff.mp h
  obtain ⟨old, hold, heq⟩ := Option.map_eq_some_iff.mp hmap
  exact ⟨old, hold, heq.symm⟩

theorem Marks.InI64.forget (h : marks.InI64) (device : String) :
    Marks.InI64 (forgetMarks marks device) := by
  intro k peers hk p m hp
  obtain ⟨old, hold, rfl⟩ := forgetMarks_some hk
  rw [getElem?_keyErase] at hp
  split at hp
  · cases hp
  · exact h k old hold p m hp

/-- What is left of a filtered map was there. -/
theorem filter_some {V : Type} {m : KeyMap V} {f : String → V → Bool} {k : String} {v : V}
    (h : (m.filter f)[k]? = some v) : m[k]? = some v := by
  rw [Std.ExtTreeMap.getElem?_filter'] at h
  exact (Option.filter_eq_some_iff.mp h).1

theorem Marks.InI64.filter (h : marks.InI64) (f : String → KeyMap Int → Bool) :
    Marks.InI64 (marks.filter f) :=
  fun k peers hk => h k peers (filter_some hk)

/-- The base of the next edit is a mark, or 0. -/
theorem Shelf.Ranged.baseOf (h : s.Ranged) (id : String) : inI64 (s.baseOf id) = true := by
  have hsynced : inI64 ((s.synced[id]?).getD 0) = true := by
    cases hm : s.synced[id]? with
    | none => decide
    | some m => exact h.synced id m hm
  unfold Shelf.baseOf
  cases hheld : s.held[id]? with
  | none => exact hsynced
  | some peers =>
    rw [Option.bind_some]
    cases hmin : (peers.toList.map (·.2)).min? with
    | none => exact hsynced
    | some m =>
      obtain ⟨⟨p, v⟩, hmem, rfl⟩ := List.mem_map.mp (List.min?_mem hmin)
      exact h.held id peers hheld p v (Std.ExtTreeMap.mem_toList_iff_getElem?_eq_some.mp hmem)

/-! ### The shelf -/

theorem ranged_empty : Shelf.Ranged {} where
  keyed := keyed_empty
  notes := by
    intro k n h
    simp at h
  synced := by
    intro k v h
    simp at h
  held := by
    intro k peers h
    simp at h
  sent := by
    intro k peers h
    simp at h

namespace Shelf.Ranged
variable {s : Shelf} {v : Int} {n : Note}

theorem setSynced (h : s.Ranged) (id : String) (hv : inI64 v = true) :
    { s with synced := s.synced.insert id v }.Ranged :=
  { h with
    synced := by
      intro k m hm
      rw [getElem?_keyInsert] at hm
      split at hm
      · cases hm
        exact hv
      · exact h.synced k m hm }

theorem recordHeld (h : s.Ranged) (id peer : String) (hv : inI64 v = true) :
    (s.recordHeld id peer v).Ranged :=
  { h with held := h.held.record hv id peer }

theorem recordSent (h : s.Ranged) (id peer : String) (hv : inI64 v = true) :
    (s.recordSent id peer v).Ranged :=
  { h with sent := h.sent.record hv id peer }

theorem setSnippets (h : s.Ranged) (snippets : KeyMap Snippet) :
    { s with snippets := snippets }.Ranged :=
  { h with }

/-- Filing a note under its id. -/
theorem put (h : s.Ranged) (hn : n.Ranged) : { s with notes := s.notes.insert n.id n }.Ranged :=
  { h with
    keyed := h.keyed.insert n rfl
    notes := by
      intro k n' hn'
      rw [getElem?_keyInsert] at hn'
      split at hn'
      · cases hn'
        exact hn
      · exact h.notes k n' hn' }

theorem modified (h : s.Ranged) {k : String} (hn : s.notes[k]? = some n) :
    inI64 n.modified = true :=
  ((n.inI64_iff).mp (h.notes k n hn).numbers).2.1

theorem keepCopy (h : s.Ranged) {loser : Note} (hl : loser.Ranged) : (s.keepCopy loser).Ranged :=
  (h.setSynced loser.copyOf.id ((loser.inI64_iff).mp hl.numbers).2.1).put hl.copyOf

/-- A note from a peer, taken or refused. -/
theorem take (h : s.Ranged) (hn : n.Ranged) (peer : String) : (s.take n peer).Ranged :=
  have hstamp : inI64 n.modified = true := ((n.inI64_iff).mp hn.numbers).2.1
  ((h.setSynced n.id hstamp).recordHeld n.id peer hstamp).put hn

theorem mergeNoteFrom (h : s.Ranged) (hn : n.Ranged) (peer : String) :
    (Notes.mergeNoteFrom s n peer).1.Ranged := by
  have hstamp : inI64 n.modified = true := ((n.inI64_iff).mp hn.numbers).2.1
  have hcase := mergeNoteFrom_cases s n peer
  generalize Notes.mergeNoteFrom s n peer = merged at hcase ⊢
  cases hcase with
  | absent _ => exact h.take hn peer
  | same mine hmine _ _ =>
    exact (h.setSynced mine.id (h.modified hmine)).recordHeld mine.id peer (h.modified hmine)
  | newer mine _ _ => exact h.take hn peer
  | older mine _ _ _ _ => exact h.recordHeld mine.id peer hstamp
  | sibling mine hmine _ _ _ =>
    have hmineRanged := h.notes _ _ hmine
    rw [mergeSiblings_eq]
    split
    · exact h
    · exact ((h.keepCopy hn).setSynced mine.id (h.modified hmine)).put hmineRanged
    · exact h.take hn peer
    · exact (h.keepCopy hmineRanged).take hn peer

theorem acknowledge (h : s.Ranged) (id : String) (m : Int) (peer : String) :
    (Notes.acknowledge s id m peer).1.Ranged := by
  unfold Notes.acknowledge
  cases hnote : s.notes[id]? with
  | none => exact h
  | some note =>
    simp only
    cases hplace : note.chain.findIdx? (· == m) with
    | none => exact h
    | some place =>
      -- A version of the chain is acknowledged, and all of the chain is in range.
      have hm : inI64 m = true := by
        obtain ⟨hlt, heq, -⟩ := List.findIdx?_eq_some_iff_getElem.mp hplace
        have hmem : m ∈ note.chain := by
          rw [← beq_iff_eq.mp heq]
          exact List.getElem_mem hlt
        obtain ⟨-, hmodified, -, hancestors⟩ := (note.inI64_iff).mp (h.notes id note hnote).numbers
        cases List.mem_cons.mp hmem with
        | inl heq =>
          rw [heq]
          exact hmodified
        | inr hold => exact hancestors m hold
      have hsynced (syncs : Bool) :
          (if syncs = true then { s with synced := s.synced.insert id m } else s).Ranged := by
        cases syncs with
        | true => exact h.setSynced id hm
        | false => exact h
      simp only
      split
      · exact (hsynced _).recordHeld id peer hm
      · exact hsynced _

theorem handleFrom (h : s.Ranged) {packet : Packet} (hpacket : packet.inI64 = true)
    (peer : String) : (Notes.handleFrom s packet peer).1.Ranged := by
  have hnotes (n : Note) (hn : n ∈ packet.notes) : n.inI64 = true := by
    cases packet with
    | noteItems items => exact List.all_eq_true.mp hpacket n hn
    | index _ _ => cases hn
    | fetch _ _ => cases hn
    | snippetItems _ => cases hn
    | ack _ => cases hn
  refine handleFrom_keeps_checked (P := Shelf.Ranged) ?_ ?_ ?_ ?_ h
  · intro s n hn hvalid _ hs
    exact hs.mergeNoteFrom (Note.Ranged.of_valid hvalid (hnotes n hn)) peer
  · intro s id m hs
    exact hs.acknowledge id m peer
  · intro s id n hn hs
    exact hs.recordSent id peer (hs.modified hn)
  · intro s n _ _ hs
    exact mergeSnippet_keeps (P := Shelf.Ranged) (fun _ snippets h => h.setSnippets snippets) hs n

theorem sentTo (h : s.Ranged) (kind : Kind) (ids : List String) (peer : String) :
    (Notes.sentTo s kind ids peer).Ranged :=
  sentTo_keeps (P := Shelf.Ranged) (fun _ id _ hn hs => hs.recordSent id peer (hs.modified hn)) h
    kind ids

theorem create (h : s.Ranged) {id body : String} {now : Int} (hid : isUuid id = true)
    (hnow : nowReads now = true) {s' : Shelf} (hs' : createInShelf s id now body = some s') :
    s'.Ranged := by
  unfold createInShelf at hs'
  split at hs'
  · cases hs'
  · cases hs'
    simp only [nowReads, Bool.and_eq_true, decide_eq_true_eq] at hnow
    have hmin : i64Min ≤ 0 := by decide
    have hclock : inI64 now = true := (inI64_iff now).mpr ⟨le_trans hmin hnow.1, hnow.2⟩
    have hplain := isUuid_plain hid
    have hnumbers : (createdNote id now body).inI64 = true :=
      (Note.inI64_iff _).mpr
        ⟨hclock, hclock, (by decide : inI64 0 = true), fun m hm => absurd hm List.not_mem_nil⟩
    have hn : (createdNote id now body).Ranged :=
      ⟨hplain.1, hplain.2, (by decide : "".length ≤ maxNoteTitleChars), Nat.zero_le _, hnumbers,
        hnow.1⟩
    exact h.put hn

end Shelf.Ranged

variable {change : Content → Content} {loaded : Option Int} {P : Shelf → Prop}

/-! ### Edits -/

/-- What an edit that is saved has passed. -/
theorem editFromInShelf_saved {s' : Shelf} {copy : Option String}
    (h : editFromInShelf s id loaded change now = .saved s' copy) :
    ∃ before, s.notes[id]? = some before ∧ before.accepts change = true ∧
      Saved s id loaded now before (editedContent before change) s' := by
  unfold editFromInShelf at h
  cases hbefore : s.notes[id]? with
  | none =>
    rw [hbefore] at h
    cases h
  | some before =>
    rw [hbefore] at h
    simp only at h
    split at h
    · cases h
    · rename_i hfits
      have haccepts : before.accepts change = true := by
        rw [Bool.or_eq_true, not_or, decide_eq_true_eq, Nat.not_lt] at hfits
        simp only [Note.accepts, Bool.and_eq_true, decide_eq_true_eq]
        exact ⟨hfits.1, by simpa using hfits.2⟩
      split at h
      · cases h
      · rename_i hdiffers
        have hdiffers' : (before.withContent (editedContent before change)).sameContent before
            = false := by simpa using hdiffers
        refine ⟨before, rfl, haccepts, ?_⟩
        split at h
        · rename_i hcopy
          cases h
          rw [Bool.and_eq_true] at hcopy
          refine ⟨hbefore, hdiffers', .inr ⟨hcopy.1, (not_contains_iff _ _).mp hcopy.2, rfl⟩, ?_⟩
          intro _
          simp [Shelf.keepCopy]
        · rename_i hcopy
          cases h
          refine ⟨hbefore, hdiffers', .inl rfl, ?_⟩
          intro hover
          rw [hover, Bool.true_and, Bool.not_eq_true, Bool.not_eq_false'] at hcopy
          exact hcopy

theorem Saved.ranged {s' : Shelf}
    (hsaved : Saved s id loaded now before (editedContent before change) s') (h : s.Ranged)
    (hnow : nowReads now = true) : s'.Ranged := by
  have hbefore := h.notes id before hsaved.stored
  have hid : before.id = id := h.keyed id before hsaved.stored
  have hput : (s.put id (editedNote before (s.baseOf id) (s.mustKeep id)
      (editedContent before change) now)).Ranged := by
    have hedited := hbefore.edited (h.baseOf id) hnow (s.mustKeep id) change
    have hfiled := h.put hedited
    have hedited_id : (editedNote before (s.baseOf id) (s.mustKeep id)
      (editedContent before change) now).id = id := hid
    rw [hedited_id] at hfiled
    exact hfiled
  cases hsaved.shelf with
  | inl heq =>
    rw [heq]
    exact hput
  | inr hcopy =>
    rw [hcopy.2.2]
    exact hput.keepCopy hbefore

/-- What a saved edit keeps, any edit of the content does. -/
theorem editNoteInShelf_keeps
    (hsaved : ∀ s' copy, editFromInShelf s id loaded change now = .saved s' copy → P s') (h : P s) :
    P (editNoteInShelf s id loaded (ofContent change) now).1 := by
  rw [editNoteInShelf_content]
  cases hresult : editFromInShelf s id loaded change now with
  | tooLong => exact h
  | unchanged => exact h
  | saved s' copy => exact hsaved s' copy hresult

/-- What one edit keeps, removing duplicates does. -/
theorem removeDuplicatesIn_keeps {clock : String → Int}
    (hedit : ∀ s id change s' copy, P s → change = pin ∨ change = delete →
      editFromInShelf s id none change (clock id) = .saved s' copy → P s') (h : P s)
    (everywhere : Bool) : P (removeDuplicatesIn s everywhere clock).1 := by
  have heach (change : Content → Content) (hchange : change = pin ∨ change = delete)
      (ids : List String) (s : Shelf) (hs : P s) : P (editEach change clock s ids).1 := by
    unfold editEach
    have hfold (done : Shelf × List String) (hdone : P done.1) :
        P (ids.foldl (editNext change clock) done).1 := by
      induction ids generalizing done with
      | nil => exact hdone
      | cons id ids ih =>
        refine ih (editNext change clock done id) ?_
        unfold editNext
        cases hresult : editFromInShelf done.1 id none change (clock id) with
        | tooLong => exact hdone
        | unchanged => exact hdone
        | saved s' copy => exact hedit done.1 id change s' copy hdone hchange hresult
    exact hfold (s, []) hs
  exact heach delete (.inr rfl) _ _ (heach pin (.inl rfl) _ s h)

/-! ### Every operation -/

theorem foldl_keeps {α : Type} {f : Shelf → α → Shelf} {l : List α}
    (hf : ∀ s x, x ∈ l → P s → P (f s x)) (h : P s) : P (l.foldl f s) := by
  induction l generalizing s with
  | nil => exact h
  | cons x l ih =>
    exact ih (fun s y hy => hf s y (List.mem_cons_of_mem x hy)) (hf s x List.mem_cons_self h)

/-- One operation on the shelf. -/
theorem ShelfOp.run_ranged (h : s.Ranged) {op : ShelfOp} (hop : op.real) : (op.run s).Ranged := by
  cases op with
  | create id now body =>
    show ((createInShelf s id now body).getD s).Ranged
    cases hs' : createInShelf s id now body with
    | none => exact h
    | some s' => exact h.create hop.1 hop.2 hs'
  | edit id loaded change now =>
    refine editNoteInShelf_keeps ?_ h
    intro s' copy hresult
    obtain ⟨before, -, -, hsaved⟩ := editFromInShelf_saved hresult
    exact hsaved.ranged h hop
  | removeDuplicates everywhere clock =>
    refine removeDuplicatesIn_keeps ?_ h everywhere
    intro s id change s' copy hs _ hresult
    obtain ⟨before, -, -, hsaved⟩ := editFromInShelf_saved hresult
    exact hsaved.ranged hs (hop id)
  | receive packet peer => exact h.handleFrom hop peer
  | send ids peer => exact h.sentTo .notes ids peer
  | relay device versions =>
    exact foldl_keeps (fun s v hv hs => hs.recordSent v.1 device (hop v hv)) h
  | forget device => exact { h with held := h.held.forget device, sent := h.sent.forget device }
  | prune now =>
    exact ⟨fun k n hn => h.keyed k n (filter_some hn), fun k n hn => h.notes k n (filter_some hn),
      fun k v hv => h.synced k v (filter_some hv), h.held.filter _, h.sent.filter _⟩
  | addSnippet text fresh now =>
    show (((addInShelf s text fresh now).map (·.1)).getD s).Ranged
    unfold addInShelf
    simp only
    split
    · exact h
    · exact h.setSnippets _
  | deleteSnippet id now =>
    show ((Notes.deleteSnippet s id now).getD s).Ranged
    unfold Notes.deleteSnippet
    cases s.snippets[id]? with
    | none => exact h
    | some snippet =>
      simp only
      split
      · exact h
      · exact h.setSnippets _

/-- What was typed while the file could not be read comes in by merges. -/
theorem mergeTyped_ranged {disk typed : Shelf} (hdisk : disk.Ranged) (htyped : typed.Ranged) :
    (mergeTyped disk typed).Ranged := by
  have hsnippets : (typed.snippets.toList.foldl
      (fun s entry => (mergeSnippet s entry.2).1) disk).Ranged := by
    refine foldl_keeps ?_ hdisk
    intro s entry _ hs
    exact mergeSnippet_keeps (P := Shelf.Ranged) (fun _ snippets h => h.setSnippets snippets) hs
      entry.2
  refine foldl_keeps ?_ hsnippets
  intro s entry hentry hs
  have hget := Std.ExtTreeMap.mem_toList_iff_getElem?_eq_some.mp
    (show (entry.1, entry.2) ∈ typed.notes.toList from hentry)
  exact hs.mergeNoteFrom (htyped.notes entry.1 entry.2 hget) ""

/-- What holds of every shelf that comes about. -/
theorem Reachable.ranged (h : Reachable s) : s.Ranged := by
  induction h with
  | empty => exact ranged_empty
  | op _ op hop ih => exact ShelfOp.run_ranged ih hop
  | retry _ _ hdisk htyped => exact mergeTyped_ranged hdisk htyped

/-- Whatever was made, edited, received, sent, removed and merged in before: the shelf is in
its ranges, and removing its copies drops nothing that a note says and no note that is no
copy. Removing them again changes nothing. -/
theorem shelves_ranged {s : Shelf} (hs : Reachable s) :
    s.Ranged ∧ ∀ (everywhere : Bool) (clock : String → Int),
      (∀ key, (∃ n ∈ (removeDuplicatesIn s everywhere clock).1.live, n.contentKey = key) ↔
        ∃ n ∈ s.live, n.contentKey = key) ∧
      (∀ n ∈ s.live, n.isCopy = false →
        ∃ n' ∈ (removeDuplicatesIn s everywhere clock).1.live, n.Alike n') ∧
      ∀ clock', removeDuplicatesIn (removeDuplicatesIn s everywhere clock).1 everywhere clock'
        = ((removeDuplicatesIn s everywhere clock).1, []) := by
  have hranged := hs.ranged
  have hsound : s.Sound := ⟨hranged.keyed, fun k n hn => (hranged.notes k n hn).title⟩
  exact ⟨hranged, fun _ _ => ⟨keys_kept hsound, fun _ hn hcopy => originals_kept hsound hn hcopy,
    removed_again hsound⟩⟩

def milkId : String := "11111111-2222-4333-8444-555555555555"

/-- Both sides wrote a note of one id, and the one that lost is kept as a copy. Then the other
is made to say the same. -/
def milkOps : List ShelfOp :=
  [.create milkId 1 "milk",
    .receive (.noteItems [⟨milkId, "", "bread", false, 2, 2, 0, [], false⟩]) "phone",
    .edit milkId none (fun c => { c with body := "milk" }) 3]

/-- The copy is removed, and what it says is still there. -/
theorem shelves_ranged_copied :
    let s := milkOps.foldl ShelfOp.run {}
    s.Ranged ∧ (removeDuplicatesIn s false (fun _ => 4)).2 = [copyId milkId 1] ∧
      (∃ n ∈ (removeDuplicatesIn s false (fun _ => 4)).1.live, n.contentKey = ("milk", "milk")) ∧
      removeDuplicatesIn (removeDuplicatesIn s false (fun _ => 4)).1 false (fun _ => 5)
        = ((removeDuplicatesIn s false (fun _ => 4)).1, []) := by
  intro s
  have hreachable : Reachable s :=
    .op (.op (.op .empty (.create milkId 1 "milk") ⟨by decide +kernel, by decide⟩)
      (.receive (.noteItems [⟨milkId, "", "bread", false, 2, 2, 0, [], false⟩]) "phone")
      (by decide +kernel : _ = true)) (.edit milkId none _ 3) (by decide : _ = true)
  obtain ⟨hranged, hremoved⟩ := shelves_ranged hreachable
  obtain ⟨hkeys, -, hagain⟩ := hremoved false (fun _ => 4)
  have hcopy : ∃ n ∈ s.live, n.id = copyId milkId 1 ∧ n.contentKey = ("milk", "milk") := by
    decide +kernel
  obtain ⟨n, hn, -, hkey⟩ := hcopy
  have hgone : (removeDuplicatesIn s false (fun _ => 4)).2 = [copyId milkId 1] := by
    decide +kernel
  exact ⟨hranged, hgone, (hkeys _).mpr ⟨n, hn, hkey⟩, hagain _⟩

end DeskLink.Notes
