import DeskLink.Proofs.Notes.Deletion

/-!
# `DeskLink.Proofs.Notes.Syncable`: whether a shelf can be synced

A note can be synced when `valid_note` lets it in and its JSON fits a
packet (`Note.Syncable`). Sizes are checked when a note is edited, before
its parent, ancestors and stamp are set, and not at all when it is made,
copied or taken from a packet. `ShelfOp.Fits` says, of the shelf before an
operation, that what it files fits with all of that:

* `shelf_syncable`: along every run from the empty shelf whose operations
  fit, every note can be synced, and so is in the packets that send it.
* `typed_note_skipped`: a note typed up to its bound is never sent.
-/

set_option autoImplicit false

namespace DeskLink.Notes

variable {n before : Note} {s t : Shelf} {change : Content → Content} {id : String} {now : Int}
  {count : Nat}

/-- A peer lets the note in, and a packet can carry it. -/
structure Note.Syncable (n : Note) : Prop where
  valid : validNote n = true
  fits : n.fitsOnePacket = true

def Shelf.Syncable (s : Shelf) : Prop :=
  ∀ (k : String) (n : Note), s.notes[k]? = some n → n.Syncable

/-! ### What an operation files -/

/-- The changed note with the stamps of its new version. -/
def Shelf.stamped (s : Shelf) (id : String) (before : Note) (c : Content) (now : Int) : Note :=
  { before.withContent c with
    parent := s.baseOf id
    ancestors := ancestorsAfter before (s.mustKeep id)
    modified := max now (i64SaturatingSucc before.modified) }

/-- A copy of `loser` has an id that is short enough, and fits. -/
def Note.CopyFits (loser : Note) : Prop :=
  loser.copyOf.id.length ≤ maxIdChars ∧ loser.copyOf.fitsOnePacket = true

/-- An edit fits: the changed note does with its new stamps, and the copy
of a version that was typed over does. -/
def EditFits (s : Shelf) (id : String) (loaded : Option Int) (change : Content → Content)
    (now : Int) : Prop :=
  ∀ before, s.notes[id]? = some before → before.saves change = true →
    ((editedContent before change).deleted = false →
      (s.stamped id before (editedContent before change) now).fitsOnePacket = true) ∧
    (overtaken before loaded = true → s.notes[before.copyOf.id]? = none → before.CopyFits)

/-- N2 makes a copy of one of the two versions. -/
def MakesCopy (s : Shelf) (mine n : Note) : Prop :=
  ¬(mine.modified = n.modified ∧ mine.sameContent n = true) ∧ n.names mine.modified = false ∧
    mine.names n.modified = false ∧ makesCopy s mine n = true

/-- A note that comes fits where it is put on the shelf, and its copy, or
that of ours, where one is made. -/
def MergeFits (s : Shelf) (n : Note) : Prop :=
  (s.notes[n.id]? = none → n.fitsOnePacket = true) ∧
    ∀ mine, s.notes[n.id]? = some mine →
      (Replaces mine n → n.fitsOnePacket = true) ∧
      (MakesCopy s mine n → (siblingLoser mine n).CopyFits)

/-- The condition on an operation, in the shelf before it. In a packet it
is on each note, in the shelf that those before it left. -/
def ShelfOp.Fits (s : Shelf) : ShelfOp → Prop
  | .create id now body => liveNotes s ≥ maxNotes ∨
    (0 < now ∧ body.utf8ByteSize ≤ maxNoteBytes ∧ (createdNote id now body).fitsOnePacket = true)
  | .edit id loaded change now => EditFits s id loaded change now
  | .removeDuplicates everywhere clock =>
    ∀ id ∈ s.toPin (s.doomed everywhere), EditFits s id none pin (clock id)
  | .receive packet peer =>
    ∀ first n rest, packet.notes.take maxItemsPerPacket = first ++ n :: rest →
      MergeFits (first.foldl (takeNote peer) { shelf := s }).shelf n
  | _ => True

/-! ### Merges -/

theorem Note.CopyFits.syncable {loser : Note} (h : loser.CopyFits) (hranged : loser.Ranged)
    (hvalid : validNote loser = true) : loser.copyOf.Syncable where
  valid := by
    obtain ⟨-, hancestors, hbody, -, hstamp⟩ := (validNote_iff loser).mp hvalid
    have hid : validId loser.copyOf.id = true :=
      (validId_iff _).mpr ⟨hranged.copyOf.id_ne, h.1, hranged.copyOf.id_plain⟩
    exact (validNote_iff _).mpr ⟨hid, hancestors, hbody, copyOf_title_length loser, hstamp⟩
  fits := h.2

theorem Shelf.Syncable.insert (h : s.Syncable) (hn : n.Syncable) {k : String}
    (ht : t.notes = s.notes.insert k n) : t.Syncable := by
  intro k' n' hn'
  rw [ht, getElem?_keyInsert] at hn'
  split at hn'
  · cases hn'
    exact hn
  · exact h k' n' hn'

theorem Shelf.Syncable.of_notes (h : s.Syncable) (ht : t.notes = s.notes) : t.Syncable := by
  intro k n hn
  rw [ht] at hn
  exact h k n hn

/-- A note the shelf has as it is moves no note. -/
theorem mergeNoteFrom_same_notes {mine : Note} (hmine : s.notes[n.id]? = some mine)
    (hsame : mine.modified = n.modified ∧ mine.sameContent n = true) (peer : String) :
    (mergeNoteFrom s n peer).1.notes = s.notes := by
  unfold mergeNoteFrom
  rw [hmine]
  simp only
  rw [if_pos hsame]
  rfl

/-- A valid note that fits where it is put. -/
theorem Shelf.Syncable.merge (h : s.Syncable) (hranged : s.Ranged) (hvalid : validNote n = true)
    (hn : n.Ranged) (hfits : MergeFits s n) (peer : String) :
    (mergeNoteFrom s n peer).1.Syncable := by
  by_cases hsame : ∃ mine, s.notes[n.id]? = some mine ∧
      mine.modified = n.modified ∧ mine.sameContent n = true
  · obtain ⟨mine, hmine, hsame⟩ := hsame
    exact h.of_notes (mergeNoteFrom_same_notes hmine hsame peer)
  · have hreplaces (mine : Note) (hmine : s.notes[n.id]? = some mine)
        (hway : n.names mine.modified = true ∨
          (mine.names n.modified = false ∧ incomingWins mine n = true)) : n.Syncable :=
      ⟨hvalid, (hfits.2 mine hmine).1 ⟨fun hsame' => hsame ⟨mine, hmine, hsame'⟩, hway⟩⟩
    have hcase := mergeNoteFrom_cases s n peer
    generalize mergeNoteFrom s n peer = merged at hcase ⊢
    cases hcase with
    | absent hnone => exact h.insert ⟨hvalid, hfits.1 hnone⟩ rfl
    | same mine _ _ _ => exact h.of_notes rfl
    | newer mine hmine hnames => exact h.insert (hreplaces mine hmine (.inl hnames)) rfl
    | older mine _ _ _ _ => exact h.of_notes rfl
    | sibling mine hmine hdiff hnames hnamed =>
      have hcopy (hmakes : makesCopy s mine n = true) : (siblingLoser mine n).CopyFits :=
        (hfits.2 mine hmine).2 ⟨hdiff, hnames, hnamed, hmakes⟩
      have hmineSync := h _ _ hmine
      have hkept (loser : Note) (hl : loser.copyOf.Syncable) : (s.keepCopy loser).Syncable :=
        h.insert hl rfl
      rw [mergeSiblings_eq]
      cases hwins : incomingWins mine n with
      | false =>
        cases hmakes : makesCopy s mine n with
        | false => exact h
        | true =>
          -- What came lost, and its copy is kept.
          have hloser : siblingLoser mine n = n := by simp [siblingLoser, hwins]
          have hfit := hcopy hmakes
          rw [hloser] at hfit
          exact (hkept n (hfit.syncable hn hvalid)).insert hmineSync rfl
      | true =>
        have hnSync := hreplaces mine hmine (.inr ⟨hnamed, hwins⟩)
        cases hmakes : makesCopy s mine n with
        | false => exact h.insert hnSync rfl
        | true =>
          have hloser : siblingLoser mine n = mine := by simp [siblingLoser, hwins]
          have hfit := hcopy hmakes
          rw [hloser] at hfit
          have hmineRanged := hranged.notes _ _ hmine
          exact (hkept mine (hfit.syncable hmineRanged hmineSync.valid)).insert hnSync rfl

/-- The loop over an `items` packet. -/
theorem takeNotes_syncable {items : List Note} {peer : String}
    (hnumbers : ∀ n ∈ items, n.inI64 = true) {st : ItemsState} (h : st.shelf.Syncable)
    (hranged : st.shelf.Ranged)
    (hfits : ∀ first n rest, items = first ++ n :: rest →
      MergeFits (first.foldl (takeNote peer) st).shelf n) :
    (items.foldl (takeNote peer) st).shelf.Syncable := by
  induction items generalizing st with
  | nil => exact h
  | cons n items ih =>
    obtain ⟨hn, hrest⟩ := List.forall_mem_cons.mp hnumbers
    have hfirst : MergeFits st.shelf n := hfits [] n items rfl
    have hnext : (takeNote peer st n).shelf.Syncable ∧ (takeNote peer st n).shelf.Ranged := by
      unfold takeNote
      split
      · exact ⟨h, hranged⟩
      · rename_i hvalid
        have hvalid' : validNote n = true := by simpa using hvalid
        have hnRanged := Note.Ranged.of_valid hvalid' hn
        have hmerged := h.merge hranged hvalid' hnRanged hfirst peer
        have hmergedRanged := hranged.mergeNoteFrom hnRanged peer
        split
        · exact ⟨h, hranged⟩
        · split <;> rename_i heq <;> rw [heq] at hmerged hmergedRanged <;>
            exact ⟨hmerged, hmergedRanged⟩
    rw [List.foldl_cons]
    refine ih hrest hnext.1 hnext.2 ?_
    intro first m rest heq
    exact hfits (n :: first) m rest (by rw [heq]; rfl)

/-! ### Edits -/

/-- The version that an edit which fits makes. -/
theorem Note.Syncable.edited (hs : s.Ranged) (hbefore : s.notes[id]? = some before)
    (h : before.Syncable) (hnow : nowReads now = true) (haccepts : before.accepts change = true)
    (hfits : (editedContent before change).deleted = false →
      (s.stamped id before (editedContent before change) now).fitsOnePacket = true) :
    (editedNote before (s.baseOf id) (s.mustKeep id) (editedContent before change) now).Syncable := by
  have hranged := (hs.notes id before hbefore).edited (hs.baseOf id) hnow (s.mustKeep id) change
  obtain ⟨hvalidId, -, -, -, hstamp⟩ := (validNote_iff before).mp h.valid
  obtain ⟨-, hidLength, -⟩ := (validId_iff before.id).mp hvalidId
  have hbody : (editedContent before change).body.utf8ByteSize ≤ maxNoteBytes := by
    simp only [Note.accepts, Bool.and_eq_true, decide_eq_true_eq] at haccepts
    exact haccepts.1
  have hlater : 0 < max now (i64SaturatingSucc before.modified) := by
    unfold i64SaturatingSucc i64Max
    omega
  refine ⟨(validNote_iff _).mpr ⟨hvalidId, hranged.ancestors, ?_, hranged.title, hlater⟩, ?_⟩
  · show (if (editedContent before change).deleted then ""
      else (editedContent before change).body).utf8ByteSize ≤ maxNoteBytes
    split
    · decide
    · exact hbody
  · cases hdeleted : (editedContent before change).deleted with
    | false =>
      have heq : editedNote before (s.baseOf id) (s.mustKeep id) (editedContent before change) now
          = s.stamped id before (editedContent before change) now := by
        simp only [editedNote, Shelf.stamped, Note.withContent, hdeleted, Bool.false_eq_true,
          if_false]
      rw [heq]
      exact hfits hdeleted
    | true =>
      -- A tombstone has no texts.
      refine fitsOnePacket_tombstone hranged.numbers hranged.ancestors hidLength ?_ ?_
      · simp only [editedNote, hdeleted, if_true]
      · simp only [editedNote, hdeleted, if_true]

theorem Saved.syncable {s' : Shelf} (hs : s.Ranged) (h : s.Syncable) {loaded : Option Int}
    (hnow : nowReads now = true) (haccepts : before.accepts change = true)
    (hsaved : Saved s id loaded now before (editedContent before change) s')
    (hfits : EditFits s id loaded change now) : s'.Syncable := by
  have hstored := hsaved.stored
  have hbefore := h id before hstored
  have hsaves : before.saves change = true := by
    simp only [Note.saves, haccepts, hsaved.differs, Bool.not_false, Bool.and_true]
  obtain ⟨hnote, hcopy⟩ := hfits before hstored hsaves
  have hedited := hbefore.edited hs hstored hnow haccepts hnote
  have hput := h.insert hedited (k := id) (t := s.put id _) rfl
  cases hsaved.shelf with
  | inl heq =>
    rw [heq]
    exact hput
  | inr hover =>
    obtain ⟨hovertaken, habsent, heq⟩ := hover
    have hfresh : s.notes[before.copyOf.id]? = none := by
      have hid := hs.keyed id before hstored
      have hne : id ≠ before.copyOf.id := by
        rw [copyOf_id, hid]
        exact (copyId_ne id before.modified).symm
      have hlook : (s.notes.insert id (editedNote before (s.baseOf id) (s.mustKeep id)
        (editedContent before change) now))[before.copyOf.id]? = none := habsent
      rw [getElem?_keyInsert, if_neg hne] at hlook
      exact hlook
    rw [heq]
    exact hput.insert ((hcopy hovertaken hfresh).syncable (hs.notes id before hstored)
      hbefore.valid) rfl

/-- Each note that is pinned or deleted is edited from what it was. -/
theorem removed_syncable (hs : s.Ranged) (h : s.Syncable) {everywhere : Bool} {clock : String → Int}
    (hclock : ∀ id, nowReads (clock id) = true)
    (hfits : ∀ id ∈ s.toPin (s.doomed everywhere), EditFits s id none pin (clock id)) :
    (removeDuplicatesIn s everywhere clock).1.Syncable := by
  have hedit (k : String) (before : Note) (hbefore : s.notes[k]? = some before)
      (change : Content → Content)
      (hfit : before.saves change = true → (editedContent before change).deleted = false →
        (s.stamped k before (editedContent before change) (clock k)).fitsOnePacket = true) :
      (s.edited change clock k before).Syncable := by
    unfold Shelf.edited
    split
    · rename_i hsaves
      have haccepts : before.accepts change = true := by
        unfold Note.saves at hsaves
        rw [Bool.and_eq_true] at hsaves
        exact hsaves.1
      exact (h k before hbefore).edited hs hbefore (hclock k) haccepts (hfit hsaves)
    · exact h k before hbefore
  intro k n hn
  rw [removed_getElem? hs.keyed] at hn
  split at hn
  · rename_i hdoomed
    obtain ⟨before, hbefore, rfl⟩ := Option.map_eq_some_iff.mp hn
    refine hedit k before hbefore delete (fun _ hkept => ?_)
    -- What goes is live, so its deletion does not bring it back.
    obtain ⟨n, hlive, hid⟩ := live_of_doomed hs.keyed hdoomed
    obtain ⟨hstored, hdeleted⟩ := (mem_live hs.keyed).mp hlive
    rw [hid, hbefore] at hstored
    cases hstored
    simp [editedContent, delete, Note.content, hdeleted] at hkept
  · split at hn
    · rename_i hpin
      obtain ⟨before, hbefore, rfl⟩ := Option.map_eq_some_iff.mp hn
      exact hedit k before hbefore pin (fun hsaves => (hfits k hpin before hbefore hsaves).1)
    · exact h k n hn

/-! ### Runs -/

/-- An operation that fits keeps the shelf so that it can be synced. -/
theorem ShelfOp.run_syncable (hs : s.Ranged) (h : s.Syncable) {op : ShelfOp} (hop : op.real)
    (hfits : op.Fits s) : (op.run s).Syncable := by
  cases op with
  | create id now body =>
    show ((createInShelf s id now body).getD s).Syncable
    unfold createInShelf
    split
    · exact h
    · rename_i hroom
      cases hfits with
      | inl hfull => exact absurd hfull hroom
      | inr hfits =>
        obtain ⟨hnow, hbody, hpacket⟩ := hfits
        obtain ⟨hne, hplain⟩ := isUuid_plain hop.1
        have hlength : id.length ≤ maxIdChars := by
          have huuid := hop.1
          unfold isUuid at huuid
          rw [Bool.and_eq_true, beq_iff_eq] at huuid
          have hmax : maxIdChars = 128 := rfl
          omega
        have hvalid : validNote (createdNote id now body) = true :=
          (validNote_iff _).mpr ⟨(validId_iff id).mpr ⟨hne, hlength, hplain⟩, Nat.zero_le _, hbody,
            (by decide : "".length ≤ maxNoteTitleChars), hnow⟩
        exact h.insert ⟨hvalid, hpacket⟩ rfl
  | edit id loaded change now =>
    refine editNoteInShelf_keeps (P := Shelf.Syncable) ?_ h
    intro s' copy hresult
    obtain ⟨before, -, haccepts, hsaved⟩ := editFromInShelf_saved hresult
    exact hsaved.syncable hs h hop haccepts hfits
  | removeDuplicates everywhere clock => exact removed_syncable hs h hop hfits
  | receive packet peer =>
    refine Shelf.Syncable.of_notes ?_ (handleFrom_notes s packet peer)
    refine takeNotes_syncable ?_ h hs hfits
    intro n hn
    cases packet with
    | noteItems items => exact List.all_eq_true.mp hop n (List.mem_of_mem_take hn)
    | index _ _ => cases hn
    | fetch _ _ => cases hn
    | snippetItems _ => cases hn
    | ack _ => cases hn
  | send ids peer => exact h.of_notes (sentTo_notes s .notes ids peer)
  | relay device versions =>
    show (markRelayed s device versions).Syncable
    refine foldl_keeps ?_ h
    intro s version _ hs
    exact hs.of_notes rfl
  | forget device => exact h.of_notes rfl
  | prune now => exact fun k n hn => h k n (filter_some hn)
  | addSnippet text fresh now =>
    show (((addInShelf s text fresh now).map (·.1)).getD s).Syncable
    unfold addInShelf
    simp only
    split
    · exact h
    · exact h.of_notes rfl
  | deleteSnippet id now =>
    show ((Notes.deleteSnippet s id now).getD s).Syncable
    unfold Notes.deleteSnippet
    cases s.snippets[id]? with
    | none => exact h
    | some snippet =>
      simp only
      split
      · exact h
      · exact h.of_notes rfl

/-- Each operation of a run, as a step that is always enabled. -/
def opStep (s : Shelf) (op : ShelfOp) : Option Shelf := some (op.run s)

/-- After any operations on an empty shelf that fit it, each note is let in
by a peer, and no `items` packet skips it. -/
theorem shelf_syncable (ops : List ShelfOp) (hreal : ∀ op ∈ ops, op.real)
    (hfits : Lib.StepsMeet opStep (fun s op => op.Fits s) {} ops) (s : Shelf)
    (hrun : Lib.runFrom opStep {} ops = some s) (id : String) (n : Note)
    (hn : s.notes[id]? = some n) :
    validNote n = true ∧ n.fitsOnePacket = true ∧ fitsPacket Note.jsonLength n = true := by
  have hinvariant : s.Ranged ∧ s.Syncable := by
    refine Lib.runFrom_invariant_of_steps (I := fun s => s.Ranged ∧ s.Syncable) ?_
      ⟨ranged_empty, fun k n h => by simp at h⟩ (hfits.and_forall hreal) hrun
    rintro s op s' ⟨hs, h⟩ ⟨hop, hfit⟩ hstep
    cases hstep
    exact ⟨ShelfOp.run_ranged hs hop, ShelfOp.run_syncable hs h hop hfit⟩
  obtain ⟨hvalid, hfit⟩ := hinvariant.2 id n hn
  refine ⟨hvalid, hfit, ?_⟩
  simp only [Note.fitsOnePacket, decide_eq_true_eq] at hfit
  simp only [fitsPacket, decide_eq_true_eq]
  omega

/-- With the ancestor of its first edit the typed note is over the size of
a packet. -/
theorem typedNote_unfit (hlong : maxPacketBytes - packetOverhead ≤ 133 + 2 * count) :
    (typedNote count).fitsOnePacket = false := by
  have hlength : (typedNote 0).jsonLength = 133 := by decide
  have hquotes := fitsOnePacket_quotes (typedNote 0) count
  have hempty : ({ typedNote 0 with body := "" } : Note) = typedNote 0 := rfl
  have hcount : ({ typedNote 0 with body := quotes count } : Note) = typedNote count := rfl
  rw [hempty, hlength, hcount] at hquotes
  rw [hquotes]
  exact decide_eq_false (Nat.not_lt.mpr hlong)

/-- A note is made, and its text changed. -/
theorem shelf_syncable_milk :
    let ops := [ShelfOp.create noteUuid 1 "", .edit noteUuid none (typed "milk") 2]
    (ops.foldl ShelfOp.run {}).notes[noteUuid]?.any (fun n => n.body == "milk" && validNote n) := by
  have hstored : (ShelfOp.run (madeShelf "") (.edit noteUuid none (typed "milk") 2)).notes[noteUuid]?
      = some (editedNote (createdNote noteUuid 1 "") 0 [] ⟨"", "milk", false, false⟩ 2) := by
    decide +kernel
  have hbase : (madeShelf "").baseOf noteUuid = 0 ∧ (madeShelf "").mustKeep noteUuid = [] := by
    decide +kernel
  have hedit : EditFits (madeShelf "") noteUuid none (typed "milk") 2 := by
    intro before hbefore _
    rw [madeShelf_notes] at hbefore
    cases hbefore
    refine ⟨fun _ => ?_, fun hover => by cases hover⟩
    unfold Shelf.stamped
    rw [hbase.1, hbase.2]
    decide
  have hvalid := shelf_syncable [.create noteUuid 1 "", .edit noteUuid none (typed "milk") 2]
    (List.forall_mem_cons.mpr ⟨⟨by decide, by decide⟩, List.forall_mem_cons.mpr
      ⟨(by decide : nowReads 2 = true), fun _ hnone => absurd hnone List.not_mem_nil⟩⟩)
    ⟨.inr ⟨by decide, by decide, by decide⟩, fun s hs => by
      cases hs
      exact ⟨hedit, fun _ _ => trivial⟩⟩
    _ rfl noteUuid _ hstored
  show (ShelfOp.run (madeShelf "") (.edit noteUuid none (typed "milk") 2)).notes[noteUuid]?.any _
    = true
  rw [hstored, Option.any_some, hvalid.1]
  decide

/-! ### A note typed up to its bound -/

/-- A note of quotes that is over a packet with its ancestor is in none. -/
theorem typedNote_skipped (hstored : (typedShelf count).notes[noteUuid]? = some (typedNote count))
    (hbig : (typedNote count).fitsOnePacket = false) :
    itemsPackets (typedShelf count) .notes [noteUuid] = [] := by
  have hlist : [noteUuid].filterMap ((typedShelf count).notes[·]?) = [typedNote count] := by
    rw [List.filterMap_cons, hstored]
    rfl
  have hskipped : maxPacketBytes - packetOverhead < (typedNote count).jsonLength + 1 := by
    simp only [Note.fitsOnePacket, decide_eq_false_iff_not] at hbig
    omega
  show notePackets ([noteUuid].filterMap ((typedShelf count).notes[·]?)) = []
  rw [hlist]
  unfold notePackets splitItems
  simp only
  rw [if_pos hskipped]
  rfl

/-- 20,290 quotes are saved, and with the ancestor that the save added the
note no longer fits a packet: it is skipped. -/
theorem typed_note_skipped :
    Reachable (typedShelf 20290) ∧
      (typedShelf 20290).notes[noteUuid]? = some (typedNote 20290) ∧
      (typedNote 20290).fitsOnePacket = false ∧
      itemsPackets (typedShelf 20290) .notes [noteUuid] = [] := by
  have hstored : (typedShelf 20290).notes[noteUuid]? = some (typedNote 20290) :=
    typedShelf_notes (by decide) (by decide) (by decide)
  have hbig : (typedNote 20290).fitsOnePacket = false := typedNote_unfit (by decide)
  exact ⟨typedShelf_reachable 20290, hstored, hbig, typedNote_skipped hstored hbig⟩

end DeskLink.Notes
