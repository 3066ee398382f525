import DeskLink.Proofs.Notes.Deletion

/-!
# `DeskLink.Proofs.Notes.Later`: whether a change supersedes what it changed

A local edit of a note is stamped past the version it replaces, and names
it among its ancestors, so that whoever holds that version takes the edit.
`changes_supersede_iff` says when it does: the stamp can go past it unless
it is the last `i64`, and the replaced version is named unless eight
ancestors that are to be kept leave no room for it.

A snippet's edit is stamped with the clock alone. So it supersedes what it
changed exactly when the clock is ahead of that stamp:

* `snippet_behind`: a deletion by a clock that is behind the phone's.
-/

set_option autoImplicit false

namespace DeskLink.Notes

variable {before after : Note} {id : String} {s : Shelf} {now : Int} {change : Content → Content}

/-- `after` is later than `before`, and whoever holds `before` takes it,
with no copy made. -/
def Supersedes (before after : Note) : Prop :=
  before.modified < after.modified ∧
    ∀ (p : Shelf) (peer : String), p.notes[after.id]? = some before →
      (mergeNoteFrom p after peer).2 = .taken ∧
        (mergeNoteFrom p after peer).1.notes = p.notes.insert after.id after

/-- The same of snippets. -/
def SnippetSupersedes (before after : Snippet) : Prop :=
  before.modified < after.modified ∧
    ∀ p : Shelf, p.snippets[after.id]? = some before → (mergeSnippet p after).2 = true

/-- The next version of note `id` names `before`: as its base, as one to be
kept, or since those to be kept leave room. -/
def Shelf.Recognises (s : Shelf) (id : String) (before : Note) : Prop :=
  s.baseOf id = before.modified ∨ before.modified ∈ s.mustKeep id ∨
    (before.ancestors.filter ((s.mustKeep id).contains ·)).length < maxAncestors

/-! ### The replaced version among the ancestors -/

/-- The last stamp is named when it is to be kept, or there is room. -/
theorem mem_ancestorsAfter_iff (hancestors : before.ancestors.length ≤ maxAncestors)
    (keep : List Int) : before.modified ∈ ancestorsAfter before keep ↔
      before.modified ∈ keep ∨
        (before.ancestors.filter (keep.contains ·)).length < maxAncestors := by
  have hfilter := List.length_filter_le (keep.contains ·) before.ancestors
  have hlength : before.chain.length = before.ancestors.length + 1 := rfl
  unfold ancestorsAfter
  simp only
  split
  · -- All of the chain fits.
    rename_i hshort
    have hhead : before.modified ∈ before.chain := List.mem_cons_self
    exact ⟨fun _ => .inr (by omega), fun _ => hhead⟩
  · rename_i hlong
    rw [List.mem_insertionSort, List.mem_append]
    by_cases hkeep : before.modified ∈ keep
    · -- It is the first of those that are kept.
      have hcontains : keep.contains before.modified = true := List.contains_iff_mem.mpr hkeep
      have hfirst : before.chain.filter (keep.contains ·)
          = before.modified :: before.ancestors.filter (keep.contains ·) := by
        unfold Note.chain
        rw [List.filter_cons, if_pos hcontains]
      refine ⟨fun _ => .inl hkeep, fun _ => .inl ?_⟩
      rw [hfirst]
      exact List.mem_cons_self
    · have hcontains : ¬keep.contains before.modified = true :=
        fun h => hkeep (List.contains_iff_mem.mp h)
      have hkept : before.chain.filter (keep.contains ·)
          = before.ancestors.filter (keep.contains ·) := by
        unfold Note.chain
        rw [List.filter_cons, if_neg hcontains]
      rw [hkept]
      have hnot : before.modified ∉
          (before.ancestors.filter (keep.contains ·)).take maxAncestors := by
        intro hmem
        exact hcontains (List.mem_filter.mp (List.mem_of_mem_take hmem)).2
      have hrecent : before.chain.filter (fun m =>
            !((before.ancestors.filter (keep.contains ·)).take maxAncestors).contains m)
          = before.modified :: before.ancestors.filter (fun m =>
            !((before.ancestors.filter (keep.contains ·)).take maxAncestors).contains m) := by
        unfold Note.chain
        rw [List.filter_cons, if_pos]
        rw [Bool.not_eq_true', ← Bool.not_eq_true]
        exact fun h => hnot (List.contains_iff_mem.mp h)
      rw [hrecent, List.length_take]
      constructor
      · intro h
        cases h with
        | inl hmem => exact absurd hmem hnot
        | inr hmem =>
          refine .inr ?_
          by_contra hfull
          have hroom : maxAncestors
              - min maxAncestors (before.ancestors.filter (keep.contains ·)).length = 0 := by omega
          rw [hroom, List.take_zero] at hmem
          exact absurd hmem List.not_mem_nil
      · intro h
        refine .inr ?_
        have hfew : (before.ancestors.filter (keep.contains ·)).length < maxAncestors := by
          cases h with
          | inl hmem => exact absurd hmem hkeep
          | inr hfew => exact hfew
        obtain ⟨room, hroom⟩ : ∃ room, maxAncestors
            - min maxAncestors (before.ancestors.filter (keep.contains ·)).length = room + 1 :=
          ⟨_, (Nat.succ_pred_eq_of_pos (by omega)).symm⟩
        rw [hroom, List.take_succ_cons]
        exact List.mem_cons_self

theorem editedNote_names_iff (hancestors : before.ancestors.length ≤ maxAncestors) (c : Content)
    (now : Int) :
    (editedNote before (s.baseOf id) (s.mustKeep id) c now).names before.modified = true ↔
      s.Recognises id before := by
  rw [names_iff]
  exact or_congr Iff.rfl (mem_ancestorsAfter_iff hancestors (s.mustKeep id))

/-- The stamp goes past the replaced one, unless that is the last one. -/
theorem stamp_later_iff {m : Int} (hm : m ≤ i64Max) (hnow : nowReads now = true) :
    m < max now (i64SaturatingSucc m) ↔ m < i64Max := by
  simp only [nowReads, Bool.and_eq_true, decide_eq_true_eq] at hnow
  unfold i64SaturatingSucc
  omega

/-! ### What an edit changes -/

/-- A saved edit says something else than what it replaced: clearing a
deletion does not undo the change, since a tombstone that text was typed
over is brought back. -/
theorem editedNote_differs {base : Int} {keep : List Int}
    (hdiffers : (before.withContent (editedContent before change)).sameContent before = false) :
    (editedNote before base keep (editedContent before change) now).sameContent before = false := by
  rw [Bool.eq_false_iff, Ne, sameContent_iff] at hdiffers ⊢
  rintro ⟨htitle, hbody, hpinned, hdeleted⟩
  refine hdiffers ?_
  have hgone : (editedContent before change).deleted = before.deleted := hdeleted
  have hpin : (editedContent before change).pinned = before.pinned := hpinned
  cases hkind : (editedContent before change).deleted with
  | false =>
    simp only [editedNote, hkind, Bool.false_eq_true, if_false] at htitle hbody
    exact ⟨htitle, hbody, hpin, hgone⟩
  | true =>
    simp only [editedNote, hkind, if_true] at htitle hbody
    -- The tombstone was not brought back, so nothing was typed over it.
    have hbefore : before.deleted = true := by rw [← hgone, hkind]
    simp only [editedContent] at hkind
    split at hkind
    · cases hkind
    · rename_i hrevived
      rw [hbefore, hkind] at hrevived
      simp only [Bool.true_and, Bool.not_eq_true', Bool.not_eq_false, Bool.and_eq_true,
        beq_iff_eq] at hrevived
      have hcut : (editedContent before change).title = "" := by
        show String.ofList ((change before.content).title.toList.take maxNoteTitleChars) = ""
        rw [hrevived.1]
        rfl
      have hempty : (editedContent before change).body = "" := hrevived.2
      exact ⟨by rw [← htitle]; exact hcut, by rw [← hbody]; exact hempty, hpin, hgone⟩

/-- What a peer with the replaced version makes of the new one. -/
theorem supersedes_iff (hid : after.id = before.id) (hdiffers : after.sameContent before = false) :
    Supersedes before after ↔ before.modified < after.modified ∧
      (after.names before.modified = true ∨
        (before.deleted = true ∧ before.names after.modified = false)) := by
  constructor
  · rintro ⟨hlater, htaken⟩
    refine ⟨hlater, ?_⟩
    by_contra hno
    rw [not_or] at hno
    obtain ⟨hnames, hnone⟩ := hno
    -- A peer with no other note.
    let p : Shelf := { notes := (∅ : KeyMap Note).insert after.id before }
    have hp : p.notes[after.id]? = some before := by simp [p]
    have hresult := (htaken p "" hp).1
    have hcase := mergeNoteFrom_cases p after ""
    generalize mergeNoteFrom p after "" = merged at hcase hresult
    cases hcase with
    | absent habsent =>
      rw [hp] at habsent
      cases habsent
    | same mine hmine hstamp _ =>
      rw [hp] at hmine
      cases hmine
      omega
    | newer mine hmine hnewer =>
      rw [hp] at hmine
      cases hmine
      exact hnames hnewer
    | older mine _ _ _ _ => cases hresult
    | sibling mine hmine _ _ hnamed =>
      rw [hp] at hmine
      cases hmine
      have hlive : before.deleted = false := by
        cases hdel : before.deleted with
        | false => rfl
        | true => exact absurd ⟨hdel, hnamed⟩ hnone
      rw [mergeSiblings_eq] at hresult
      have hsame : before.sameContent after = false := by rw [sameContent_comm]; exact hdiffers
      cases hgone : after.deleted with
      | true =>
        -- A deletion never beats a concurrent edit.
        have hloses : incomingWins before after = false := by
          simp [incomingWins, hlive, hgone]
        have hnocopy : makesCopy p before after = false := by
          simp [makesCopy, siblingWinner, siblingLoser, hloses, inConflict, hgone]
        rw [hloses, hnocopy] at hresult
        cases hresult
      | false =>
        have hwins : incomingWins before after = true := by
          simp [incomingWins, hsame, hlive, hgone, hlater]
        have hcopy : makesCopy p before after = true := by
          have habsent : p.notes.contains (copyId before.id before.modified) = false := by
            have hne : after.id ≠ copyId before.id before.modified := by
              rw [hid]
              exact (copyId_ne before.id before.modified).symm
            rw [Std.ExtTreeMap.contains_eq_isSome_getElem?, getElem?_keyInsert, if_neg hne]
            rfl
          simp [makesCopy, siblingWinner, siblingLoser, hwins, inConflict, hgone, hlive, hdiffers,
            habsent]
        rw [hwins, hcopy] at hresult
        cases hresult
  · rintro ⟨hlater, hway⟩
    refine ⟨hlater, fun p peer hp => ?_⟩
    have hcase := mergeNoteFrom_cases p after peer
    generalize mergeNoteFrom p after peer = merged at hcase ⊢
    cases hcase with
    | absent habsent =>
      rw [hp] at habsent
      cases habsent
    | same mine hmine hstamp _ =>
      rw [hp] at hmine
      cases hmine
      omega
    | newer mine _ _ => exact ⟨rfl, rfl⟩
    | older mine hmine _ hnames hnamed =>
      rw [hp] at hmine
      cases hmine
      cases hway with
      | inl hyes =>
        rw [hnames] at hyes
        cases hyes
      | inr hgone =>
        rw [hgone.2] at hnamed
        cases hnamed
    | sibling mine hmine _ hnames _ =>
      rw [hp] at hmine
      cases hmine
      cases hway with
      | inl hyes =>
        rw [hnames] at hyes
        cases hyes
      | inr hgone =>
        -- Over a tombstone the later version wins, and there is nothing to copy.
        have hwins : incomingWins before after = true := by
          cases hafter : after.deleted with
          | true => simp [incomingWins, hgone.1, hafter, hlater]
          | false => simp [incomingWins, hgone.1, hafter]
        have hnocopy : makesCopy p before after = false := by
          simp [makesCopy, siblingWinner, siblingLoser, hwins, inConflict, hgone.1]
        rw [mergeSiblings_eq, hwins, hnocopy]
        exact ⟨rfl, rfl⟩

/-! ### The two kinds of change -/

/-- A saved edit supersedes what it replaced. -/
theorem note_supersedes_iff {s' : Shelf} (hs : s.Ranged) {loaded : Option Int}
    (hnow : nowReads now = true) {copy : Option String} (hbefore : s.notes[id]? = some before)
    (hedit : editNoteInShelf s id loaded (ofContent change) now = (s', .done true copy))
    (hafter : s'.notes[id]? = some after) : Supersedes before after ↔ before.modified < i64Max ∧
      (s.Recognises id before ∨ (before.deleted = true ∧
        before.names (max now (i64SaturatingSucc before.modified)) = false)) := by
  have hranged := hs.notes id before hbefore
  rw [editNoteInShelf_content] at hedit
  cases hresult : editFromInShelf s id loaded change now with
  | tooLong =>
    rw [hresult] at hedit
    cases hedit
  | unchanged =>
    rw [hresult] at hedit
    cases hedit
  | saved t copy' =>
    rw [hresult] at hedit
    cases hedit
    obtain ⟨before', hbefore', -, hsaved⟩ := editFromInShelf_saved hresult
    rw [hbefore] at hbefore'
    cases hbefore'
    have heq := hsaved.after_eq (hs.keyed id before hbefore) hafter
    have hmodified : before.modified ≤ i64Max :=
      ((inI64_iff _).mp (((before.inI64_iff).mp hranged.numbers).2.1)).2
    have hlater : before.modified < after.modified ↔ before.modified < i64Max := by
      rw [heq]
      exact stamp_later_iff hmodified hnow
    have hnames : after.names before.modified = true ↔ s.Recognises id before := by
      rw [heq]
      exact editedNote_names_iff hranged.ancestors (editedContent before change) now
    have hstamp : after.modified = max now (i64SaturatingSucc before.modified) := by
      rw [heq]
      rfl
    have hdiffers : after.sameContent before = false := by
      rw [heq]
      exact editedNote_differs hsaved.differs
    have hid : after.id = before.id := by
      rw [heq]
      rfl
    rw [supersedes_iff hid hdiffers, hlater, hnames, hstamp]

/-- A snippet that takes the place of another supersedes it by its stamp. -/
theorem snippetSupersedes_iff {before after : Snippet} :
    SnippetSupersedes before after ↔ before.modified < after.modified := by
  refine ⟨And.left, fun hlater => ⟨hlater, fun p hp => ?_⟩⟩
  unfold mergeSnippet
  rw [hp]
  simp only
  rw [if_neg (by omega)]

/-- Every local change supersedes what it changed exactly when: for a note,
its stamp is not the last one and the next version names it (or it is a
tombstone that does not name that version's stamp); for a snippet, pinned
again or deleted, the clock is ahead of its stamp. -/
theorem changes_supersede_iff (s : Shelf) (hs : Reachable s) (id : String) (now : Int)
    (hnow : nowReads now = true) :
    (∀ (loaded : Option Int) (change : Content → Content) (s' : Shelf) (copy : Option String)
        (before after : Note), s.notes[id]? = some before →
        editNoteInShelf s id loaded (ofContent change) now = (s', .done true copy) →
        s'.notes[id]? = some after →
        (Supersedes before after ↔ before.modified < i64Max ∧
          (s.Recognises id before ∨ (before.deleted = true ∧
            before.names (max now (i64SaturatingSucc before.modified)) = false)))) ∧
      (∀ (text fresh : String) (s' : Shelf) (before after : Snippet),
        s.snippets[id]? = some before → addInShelf s text fresh now = some (s', id) →
        s'.snippets[id]? = some after →
        (SnippetSupersedes before after ↔ before.modified < now)) ∧
      (∀ (s' : Shelf) (before after : Snippet), s.snippets[id]? = some before →
        deleteSnippet s id now = some s' → s'.snippets[id]? = some after →
        (SnippetSupersedes before after ↔ before.modified < now)) := by
  refine ⟨?_, ?_, ?_⟩
  · intro loaded change s' copy before after hbefore hedit hafter
    exact note_supersedes_iff hs.ranged hnow hbefore hedit hafter
  · intro text fresh s' before after _ hadd hafter
    have hstamp : after.modified = now := by
      unfold addInShelf at hadd
      simp only at hadd
      split at hadd
      · cases hadd
      · cases hadd
        rw [getElem?_keyInsert, if_pos rfl] at hafter
        cases hafter
        rfl
    rw [snippetSupersedes_iff, hstamp]
  · intro s' before after hbefore hdelete hafter
    have hstamp : after.modified = now := by
      unfold deleteSnippet at hdelete
      rw [hbefore] at hdelete
      simp only at hdelete
      split at hdelete
      · cases hdelete
      · cases hdelete
        rw [getElem?_keyInsert, if_pos rfl] at hafter
        cases hafter
        rfl
    rw [snippetSupersedes_iff, hstamp]

/-- A note with a text, and its deletion. -/
theorem changes_supersede_iff_milk :
    Supersedes (createdNote noteUuid 1 "milk")
      (versionOf (deleteNote (createdNote noteUuid 1 "milk")) (createdNote noteUuid 1 "milk") 0 []
        2) := by
  have hdone := deletes_of_withinSize (madeShelf_notes "milk") rfl
    (changedNote_delete rfl (by decide)) rfl ⟨by decide, by decide⟩ none 2
  obtain ⟨copy, hanswer, hstored⟩ := hdone
  have hedit : editNoteInShelf (madeShelf "milk") noteUuid none (ofContent delete) 2
      = ((editNoteInShelf (madeShelf "milk") noteUuid none deleteNote 2).1, .done true copy) :=
    Prod.ext rfl hanswer
  have hbase : (madeShelf "milk").baseOf noteUuid = 0 := by decide +kernel
  have hkeep : (madeShelf "milk").mustKeep noteUuid = [] := by decide +kernel
  have hafter := hstored
  rw [hbase, hkeep] at hafter
  refine ((changes_supersede_iff (madeShelf "milk") (madeShelf_reachable "milk") noteUuid 2
    (by decide)).1 none delete _ copy _ _ (madeShelf_notes "milk") hedit hafter).mpr
    ⟨by decide, .inl (.inr (.inr ?_))⟩
  rw [hkeep]
  decide

/-! ### A clock that is behind -/

/-- A snippet the phone pinned. -/
def phoneSnippet : Snippet where
  id := "list"
  text := "milk"
  title := ""
  modified := 100
  deleted := false

def phoneShelf : Shelf := ShelfOp.run {} (.receive (.snippetItems [phoneSnippet]) "phone")

/-- The desk's clock reads 5 when the snippet, stamped 100, is deleted: the
deletion is stamped 5, and the phone does not take it. -/
theorem snippet_behind :
    Reachable phoneShelf ∧ phoneShelf.snippets["list"]? = some phoneSnippet ∧
      ((deleteSnippet phoneShelf "list" 5).bind (·.snippets["list"]?))
        = some { phoneSnippet with text := "", deleted := true, modified := 5 } ∧
      (mergeSnippet phoneShelf
        { phoneSnippet with text := "", deleted := true, modified := 5 }).2 = false := by
  refine ⟨.op .empty _ (by decide : Packet.inI64 _ = true), ?_, ?_, ?_⟩
  · decide +kernel
  · decide +kernel
  · decide +kernel

end DeskLink.Notes
