import DeskLink.Proofs.Notes.Lineage
import DeskLink.Proofs.Notes.Sibling

/-!
# `DeskLink.Proofs.Notes.AnyOrder`: deliveries made again, and in any order

* `redelivery_harmless`: a note that comes a second time changes nothing, and a
  delivery touches the note's own id and at most one new copy.
* `siblings_any_order`: versions of one note that do not come from each other
  leave the same notes in whatever order they come. The live version with the
  latest stamp keeps the id, and every other live version has one copy.

A shelf files each note under its own id, `Shelf.Keyed`.
-/

set_option autoImplicit false

namespace DeskLink.Notes

variable {s : Shelf} {incoming : Note} {peer : String}

/-- Every note is filed under its own id. -/
def Shelf.Keyed (s : Shelf) : Prop :=
  ∀ (k : String) (n : Note), s.notes[k]? = some n → n.id = k

theorem keyed_empty : Shelf.Keyed {} := by
  intro k n h
  simp at h

/-- Filing one more note under its id. -/
theorem Shelf.Keyed.insert (h : s.Keyed) {t : Shelf} (n : Note)
    (ht : t.notes = s.notes.insert n.id n) : t.Keyed := by
  intro k n' hn'
  rw [ht, getElem?_keyInsert] at hn'
  split at hn'
  · rename_i hk
    cases hn'
    exact hk
  · exact h k n' hn'

/-! ### A delivery made again -/

/-- What a sibling merge of a keyed shelf leaves of the notes. -/
theorem mergeSiblings_getElem? (hs : s.Keyed) {mine : Note}
    (hmine : s.notes[incoming.id]? = some mine) (k : String) :
    (mergeSiblings s mine incoming peer).1.notes[k]? =
      if k = incoming.id then some (siblingWinner mine incoming)
      else if makesCopy s mine incoming = true
          ∧ k = (siblingLoser mine incoming).copyOf.id then
        some (siblingLoser mine incoming).copyOf
      else s.notes[k]? :=
  mergeSiblings_notes s mine incoming peer k hmine (hs _ _ hmine)

/-- A shelf that holds the incoming version already. -/
theorem mergeNoteFrom_held (hstored : s.notes[incoming.id]? = some incoming) :
    (mergeNoteFrom s incoming peer).1.notes = s.notes ∧
      (mergeNoteFrom s incoming peer).2 = .same := by
  have hcontent : incoming.sameContent incoming = true := by simp [sameContent_iff]
  unfold mergeNoteFrom
  rw [hstored]
  simp [hcontent]

/-- A sibling that lost, and whose copy is here, is not taken again. -/
theorem mergeNoteFrom_lost {mine : Note} (hmine : s.notes[incoming.id]? = some mine)
    (hdiff : ¬(mine.modified = incoming.modified ∧ mine.sameContent incoming = true))
    (hnames : incoming.names mine.modified = false) (hnamed : mine.names incoming.modified = false)
    (hloses : incomingWins mine incoming = false) (hcopy : makesCopy s mine incoming = false) :
    mergeNoteFrom s incoming peer = (s, .keptOurs) := by
  unfold mergeNoteFrom
  rw [hmine]
  simp only [hdiff, hnames, hnamed, Bool.false_eq_true, if_false]
  rw [mergeSiblings_eq, hloses, hcopy]

/-- The second delivery of a note changes no note, and says so. -/
theorem mergeNoteFrom_again (hs : s.Keyed) (incoming : Note) (peer peer' : String) :
    (mergeNoteFrom (mergeNoteFrom s incoming peer).1 incoming peer').1.notes
        = (mergeNoteFrom s incoming peer).1.notes ∧
      ((mergeNoteFrom (mergeNoteFrom s incoming peer).1 incoming peer').2 = .same ∨
        (mergeNoteFrom (mergeNoteFrom s incoming peer).1 incoming peer').2 = .keptOurs) := by
  have htaken (t : Shelf) (ht : t.notes[incoming.id]? = some incoming) :
      (mergeNoteFrom t incoming peer').1.notes = t.notes ∧
        ((mergeNoteFrom t incoming peer').2 = .same ∨
          (mergeNoteFrom t incoming peer').2 = .keptOurs) :=
    ⟨(mergeNoteFrom_held ht).1, .inl (mergeNoteFrom_held ht).2⟩
  have htake (t : Shelf) : (t.take incoming peer).notes[incoming.id]? = some incoming := by simp
  have hcase := mergeNoteFrom_cases s incoming peer
  generalize mergeNoteFrom s incoming peer = merged at hcase ⊢
  cases hcase with
  | absent _ => exact htaken _ (htake s)
  | newer mine _ _ => exact htaken _ (htake s)
  | same mine hmine hstamp hcontent =>
    -- The note is as it was, so it is the same again.
    unfold mergeNoteFrom
    simp [hmine, hstamp, hcontent]
  | older mine hmine hdiff hnames hnamed =>
    unfold mergeNoteFrom
    simp [hmine, hdiff, hnames, hnamed]
  | sibling mine hmine hdiff hnames hnamed =>
    have hnotes := fun k => @mergeSiblings_getElem? s incoming peer hs mine hmine k
    cases hwins : incomingWins mine incoming with
    | true =>
      refine htaken _ ?_
      rw [hnotes, if_pos rfl, siblingWinner, hwins, if_pos rfl]
    | false =>
      cases hmakes : makesCopy s mine incoming with
      | false =>
        rw [mergeSiblings_eq, hwins, hmakes]
        rw [mergeNoteFrom_lost hmine hdiff hnames hnamed hwins hmakes]
        exact ⟨rfl, .inr rfl⟩
      | true =>
        -- Ours stays, and the copy of what came is here now.
        have hloser : siblingLoser mine incoming = incoming := by simp [siblingLoser, hwins]
        have hwinner : siblingWinner mine incoming = mine := by simp [siblingWinner, hwins]
        have hstays : (mergeSiblings s mine incoming peer).1.notes[incoming.id]? = some mine := by
          rw [hnotes, if_pos rfl, hwinner]
        have hcopy : (mergeSiblings s mine incoming peer).1.notes[incoming.copyOf.id]?
            = some incoming.copyOf := by
          rw [hnotes, if_neg (by rw [copyOf_id]; exact copyId_ne _ _), hloser,
            if_pos ⟨hmakes, rfl⟩]
        have hmakes' : makesCopy (mergeSiblings s mine incoming peer).1 mine incoming = false := by
          unfold makesCopy
          rw [hloser, Std.ExtTreeMap.contains_eq_isSome_getElem?, hcopy]
          simp
        rw [mergeNoteFrom_lost hstays hdiff hnames hnamed hwins hmakes']
        exact ⟨rfl, .inr rfl⟩

/-- The entries a delivery can change: the note's own, and the copy of the
version that lost, which was not here. -/
theorem mergeNoteFrom_frame (hs : s.Keyed) (incoming : Note) (peer k : String)
    (h : (mergeNoteFrom s incoming peer).1.notes[k]? ≠ s.notes[k]?) :
    k = incoming.id ∨
      (s.notes[k]? = none ∧ ∃ mine, s.notes[incoming.id]? = some mine ∧
        k = copyId incoming.id (siblingLoser mine incoming).modified ∧
        (mergeNoteFrom s incoming peer).1.notes[k]? = some (siblingLoser mine incoming).copyOf) := by
  have htake (t : Shelf) (ht : (t.take incoming peer).notes[k]? ≠ t.notes[k]?) :
      k = incoming.id := by
    by_contra hk
    rw [take_notes, getElem?_keyInsert, if_neg (Ne.symm hk)] at ht
    exact ht rfl
  have hcase := mergeNoteFrom_cases s incoming peer
  generalize mergeNoteFrom s incoming peer = merged at hcase h ⊢
  cases hcase with
  | absent _ => exact .inl (htake s h)
  | same mine _ _ _ => exact absurd rfl h
  | newer mine _ _ => exact .inl (htake s h)
  | older mine _ _ _ _ => exact absurd rfl h
  | sibling mine hmine hdiff _ _ =>
    have hid : (siblingLoser mine incoming).id = incoming.id := by
      unfold siblingLoser
      split
      · exact hs _ _ hmine
      · rfl
    rw [mergeSiblings_getElem? hs hmine] at h ⊢
    split at h
    · rename_i hk
      exact .inl hk
    · rename_i hk
      split at h
      · rename_i hcopy
        have habsent : s.notes[k]? = none := by
          have hmakes := hcopy.1
          unfold makesCopy at hmakes
          rw [Bool.and_eq_true, ← hcopy.2, not_contains_iff] at hmakes
          exact hmakes.2
        rw [if_neg hk, if_pos hcopy]
        refine .inr ⟨habsent, mine, hmine, ?_, rfl⟩
        rw [hcopy.2, copyOf_id, hid]
      · exact absurd rfl h

/-- A note that comes again changes no note and is not taken again, from
whichever phone it comes; and a delivery changes the note's own entry and, at
most, adds the copy of the version that lost. -/
theorem redelivery_harmless (s : Shelf) (hs : s.Keyed) (incoming : Note) (peer peer' : String) :
    (mergeNoteFrom (mergeNoteFrom s incoming peer).1 incoming peer').1.notes
        = (mergeNoteFrom s incoming peer).1.notes ∧
      (mergeNoteFrom (mergeNoteFrom s incoming peer).1 incoming peer').2 ≠ .taken ∧
      (mergeNoteFrom (mergeNoteFrom s incoming peer).1 incoming peer').2 ≠ .conflict ∧
      ∀ k, (mergeNoteFrom s incoming peer).1.notes[k]? ≠ s.notes[k]? →
        k = incoming.id ∨
          (s.notes[k]? = none ∧ ∃ mine, s.notes[incoming.id]? = some mine ∧
            k = copyId incoming.id (siblingLoser mine incoming).modified ∧
            (mergeNoteFrom s incoming peer).1.notes[k]?
              = some (siblingLoser mine incoming).copyOf) := by
  obtain ⟨hnotes, hresult⟩ := mergeNoteFrom_again hs incoming peer peer'
  refine ⟨hnotes, ?_, ?_, fun k hk => mergeNoteFrom_frame hs incoming peer k hk⟩
  · obtain h | h := hresult <;> rw [h] <;> decide
  · obtain h | h := hresult <;> rw [h] <;> decide

/-- A version of one list, typed at `modified`. -/
def listVersion (body : String) (modified : Int) (deleted : Bool) : Note where
  id := "list"
  title := ""
  body := body
  pinned := false
  created := 1
  modified := modified
  parent := 1
  ancestors := [1]
  deleted := deleted

def listShelf : Shelf := { notes := (∅ : KeyMap Note).insert "list" (listVersion "milk" 5 false) }

theorem keyed_listShelf : listShelf.Keyed :=
  keyed_empty.insert (listVersion "milk" 5 false) rfl

/-- A sibling that loses is kept as a copy once. -/
theorem redelivery_harmless_listShelf :
    (mergeNoteFrom listShelf (listVersion "bread" 3 false) "phone").2 = .conflict ∧
      (mergeNoteFrom (mergeNoteFrom listShelf (listVersion "bread" 3 false) "phone").1
          (listVersion "bread" 3 false) "tablet").1.notes
        = (mergeNoteFrom listShelf (listVersion "bread" 3 false) "phone").1.notes :=
  ⟨by decide +kernel, (redelivery_harmless listShelf keyed_listShelf (listVersion "bread" 3 false)
    "phone" "tablet").1⟩

/-! ### Siblings in any order -/

/-- Versions of one note that do not come from each other, with a stamp and a
content each. -/
structure Family (id : String) (versions : List Note) : Prop where
  id_eq : ∀ v ∈ versions, v.id = id
  stamps : (versions.map Note.modified).Nodup
  apart : ∀ v ∈ versions, ∀ w ∈ versions, v ≠ w → v.names w.modified = false
  differ : ∀ v ∈ versions, ∀ w ∈ versions, v ≠ w → v.sameContent w = false

/-- A live version before a deletion, and else the later one. -/
def Note.Outranks (v w : Note) : Prop :=
  (v.deleted = false ∧ w.deleted = true) ∨ (v.deleted = w.deleted ∧ w.modified < v.modified)

theorem Note.Outranks.trans {u v w : Note} (h : u.Outranks v) (h' : v.Outranks w) :
    u.Outranks w := by
  unfold Note.Outranks at *
  grind

theorem Family.modified_ne {id : String} {versions : List Note} (h : Family id versions)
    {v w : Note} (hv : v ∈ versions) (hw : w ∈ versions) (hne : v ≠ w) :
    v.modified ≠ w.modified := by
  intro heq
  exact hne (List.inj_on_of_nodup_map h.stamps hv hw heq)

theorem Family.siblings {id : String} {versions : List Note} (h : Family id versions)
    {v w : Note} (hv : v ∈ versions) (hw : w ∈ versions) (hne : v ≠ w) : Siblings v w where
  id_eq := (h.id_eq v hv).trans (h.id_eq w hw).symm
  differ hsame := h.modified_ne hv hw hne hsame.1
  left := h.apart v hv w hw hne
  right := h.apart w hw v hv (Ne.symm hne)

/-- Of two siblings with different stamps, the one that outranks keeps the id. -/
theorem incomingWins_iff_outranks {mine incoming : Note}
    (hstamps : mine.modified ≠ incoming.modified) (hdiffer : mine.sameContent incoming = false) :
    incomingWins mine incoming = true ↔ incoming.Outranks mine := by
  unfold incomingWins Note.Outranks
  rw [hdiffer]
  cases mine.deleted <;> cases incoming.deleted <;> simp [Ne.symm hstamps]

theorem outranks_total {v w : Note} (hstamps : v.modified ≠ w.modified)
    (h : ¬ w.Outranks v) : v.Outranks w := by
  unfold Note.Outranks at *
  cases hv : v.deleted <;> cases hw : w.deleted <;> simp [hv, hw] at h ⊢ <;> omega

/-- What is on the shelf when the versions `seen` have come: `best` under the id,
a copy of every other live one, and the rest as it was in `start`. -/
structure Gathered (id : String) (start : Shelf) (seen : List Note) (best : Note) (s : Shelf) :
    Prop where
  mem : best ∈ seen
  outranks : ∀ v ∈ seen, v ≠ best → best.Outranks v
  kept : s.notes[id]? = some best
  copies : ∀ v ∈ seen, v ≠ best → v.deleted = false →
    s.notes[copyId id v.modified]? = some v.copyOf
  rest : ∀ k, k ≠ id → (∀ v ∈ seen, v ≠ best → v.deleted = false → k ≠ copyId id v.modified) →
    s.notes[k]? = start.notes[k]?

section Gathering

variable {id : String} {versions seen : List Note} {start : Shelf} {best w : Note}

theorem gathered_start (hmine : start.notes[id]? = some best) :
    Gathered id start [best] best start where
  mem := List.mem_singleton_self best
  outranks _ hv hne := absurd (List.mem_singleton.mp hv) hne
  kept := hmine
  copies _ hv hne := absurd (List.mem_singleton.mp hv) hne
  rest _ _ _ := rfl

/-- Who won and who lost, when `w` comes to a shelf that holds `best`. -/
theorem sibling_pair (best w : Note) :
    (siblingWinner best w = w ∧ siblingLoser best w = best ∧ incomingWins best w = true) ∨
      (siblingWinner best w = best ∧ siblingLoser best w = w ∧ incomingWins best w = false) := by
  unfold siblingWinner siblingLoser
  cases incomingWins best w with
  | true => exact .inl ⟨rfl, rfl, rfl⟩
  | false => exact .inr ⟨rfl, rfl, rfl⟩

theorem siblingWinner_outranks (hstamps : best.modified ≠ w.modified)
    (hdiffer : best.sameContent w = false) :
    (siblingWinner best w).Outranks (siblingLoser best w) := by
  have hwins := incomingWins_iff_outranks hstamps hdiffer
  obtain ⟨hwinner, hloser, heq⟩ | ⟨hwinner, hloser, heq⟩ := sibling_pair best w
  · rw [hwinner, hloser]
    exact hwins.mp heq
  · rw [hwinner, hloser]
    exact outranks_total hstamps (fun h => by simp [heq, h] at hwins)

/-- A copy is made of a live loser, when there is none of it yet. -/
theorem makesCopy_eq {s : Shelf} (hstamps : best.modified ≠ w.modified)
    (hdiffer : best.sameContent w = false)
    (hnone : s.notes[(siblingLoser best w).copyOf.id]? = none) :
    makesCopy s best w = !(siblingLoser best w).deleted := by
  have houtranks := siblingWinner_outranks hstamps hdiffer
  have hsame : (siblingWinner best w).sameContent (siblingLoser best w) = false := by
    obtain ⟨hwinner, hloser, -⟩ | ⟨hwinner, hloser, -⟩ := sibling_pair best w
    · rw [hwinner, hloser, sameContent_comm]
      exact hdiffer
    · rw [hwinner, hloser]
      exact hdiffer
  unfold makesCopy inConflict
  rw [(not_contains_iff _ _).mpr hnone, hsame]
  -- A winner that is deleted has beaten a deletion.
  unfold Note.Outranks at houtranks
  cases hw : (siblingWinner best w).deleted <;> cases hl : (siblingLoser best w).deleted <;>
    simp [hw, hl] at houtranks ⊢

/-- One more version comes. -/
theorem Gathered.merge {s : Shelf} (h : Gathered id start seen best s)
    (hfamily : Family id versions)
    (hstart : ∀ v ∈ versions, start.notes[copyId id v.modified]? = none)
    (hseen : ∀ v ∈ seen, v ∈ versions) (hw : w ∈ versions) (hnew : w ∉ seen) (peer : String) :
    Gathered id start (w :: seen) (siblingWinner best w) (mergeNoteFrom s w peer).1 := by
  have hbest := hseen best h.mem
  have hne : best ≠ w := by
    rintro rfl
    exact hnew h.mem
  have hstamps := hfamily.modified_ne hbest hw hne
  have hdiffer := hfamily.differ best hbest w hw hne
  have houtranks := siblingWinner_outranks hstamps hdiffer
  -- The two are the winner and the loser, in one order or the other.
  have hother : ∀ v ∈ w :: seen, v ≠ siblingWinner best w →
      v = siblingLoser best w ∨ (v ∈ seen ∧ v ≠ best) := by
    intro v hv hvne
    obtain ⟨hwinner, hloser, -⟩ | ⟨hwinner, hloser, -⟩ := sibling_pair best w <;>
      rw [hwinner] at hvne <;> rw [hloser] <;> grind
  have hback : ∀ v ∈ seen, v ≠ best → v ≠ siblingWinner best w ∧ v ≠ siblingLoser best w := by
    intro v hv hvne
    obtain ⟨hwinner, hloser, -⟩ | ⟨hwinner, hloser, -⟩ := sibling_pair best w <;>
      rw [hwinner, hloser] <;> grind
  have hwinner : siblingWinner best w ∈ w :: seen ∧ siblingLoser best w ∈ versions ∧
      siblingLoser best w ∈ w :: seen ∧ siblingLoser best w ≠ siblingWinner best w := by
    have hmem := h.mem
    obtain ⟨hwinner, hloser, -⟩ | ⟨hwinner, hloser, -⟩ := sibling_pair best w <;>
      rw [hwinner, hloser] <;> grind
  have hcopyId (v : Note) (hv : v ∈ versions) (hvne : v ≠ siblingLoser best w) :
      copyId id v.modified ≠ copyId id (siblingLoser best w).modified := fun heq =>
    hfamily.modified_ne hv hwinner.2.1 hvne (copyId_inj heq).2
  have hloserId : (siblingLoser best w).copyOf.id = copyId id (siblingLoser best w).modified := by
    rw [copyOf_id, hfamily.id_eq _ hwinner.2.1]
  -- Nothing is filed under the id of the loser's copy yet.
  have hnone : s.notes[(siblingLoser best w).copyOf.id]? = none := by
    rw [hloserId, h.rest _ (copyId_ne _ _)]
    · exact hstart _ hwinner.2.1
    · intro v hv hvne _
      exact Ne.symm (hcopyId v (hseen v hv) (hback v hv hvne).2)
  have hnotes (k : String) : (mergeNoteFrom s w peer).1.notes[k]? =
      if k = id then some (siblingWinner best w)
      else if (siblingLoser best w).deleted = false ∧
          k = copyId id (siblingLoser best w).modified then
        some (siblingLoser best w).copyOf
      else s.notes[k]? := by
    have hkept : s.notes[best.id]? = some best := by
      rw [hfamily.id_eq best hbest]
      exact h.kept
    have hid : w.id = id := hfamily.id_eq w hw
    have hsiblings := hfamily.siblings hbest hw hne
    rw [mergeNoteFrom_siblings hsiblings hkept,
      mergeSiblings_notes s best w peer k (hsiblings.id_eq ▸ hkept) hsiblings.id_eq,
      makesCopy_eq hstamps hdiffer hnone, hid, hloserId]
    simp
  refine ⟨hwinner.1, ?_, ?_, ?_, ?_⟩
  · intro v hv hvne
    obtain rfl | ⟨hv, hvne⟩ := hother v hv hvne
    · exact houtranks
    · obtain ⟨heq, hloser, -⟩ | ⟨heq, -, -⟩ := sibling_pair best w
      · rw [hloser] at houtranks
        exact houtranks.trans (h.outranks v hv hvne)
      · rw [heq]
        exact h.outranks v hv hvne
  · rw [hnotes, if_pos rfl]
  · intro v hv hvne hlive
    rw [hnotes, if_neg (copyId_ne _ _)]
    obtain rfl | ⟨hv, hvne⟩ := hother v hv hvne
    · rw [if_pos ⟨hlive, rfl⟩]
    · rw [if_neg (fun hcopy => hcopyId v (hseen v hv) (hback v hv hvne).2 hcopy.2)]
      exact h.copies v hv hvne hlive
  · intro k hk hcopies
    have hloser : ¬ ((siblingLoser best w).deleted = false ∧
        k = copyId id (siblingLoser best w).modified) := fun hcopy =>
      hcopies _ hwinner.2.2.1 hwinner.2.2.2 hcopy.1 hcopy.2
    rw [hnotes, if_neg hk, if_neg hloser]
    refine h.rest k hk (fun v hv hvne hlive => ?_)
    exact hcopies v (List.mem_cons_of_mem _ hv) (hback v hv hvne).1 hlive

/-- Notes come one after the other, each from a phone. -/
def mergeAll (s : Shelf) (arrivals : List (Note × String)) : Shelf :=
  arrivals.foldl (fun s arrival => (mergeNoteFrom s arrival.1 arrival.2).1) s

/-- All the others come, in some order. -/
theorem gathered_mergeAll (hfamily : Family id versions)
    (hstart : ∀ v ∈ versions, start.notes[copyId id v.modified]? = none)
    {arrivals : List (Note × String)} {s : Shelf} (h : Gathered id start seen best s)
    (hperm : (seen ++ arrivals.map Prod.fst).Perm versions) :
    ∃ best', Gathered id start ((arrivals.map Prod.fst).reverse ++ seen) best'
      (mergeAll s arrivals) := by
  induction arrivals generalizing seen best s with
  | nil => exact ⟨best, h⟩
  | cons arrival arrivals ih =>
    have hnodup : (seen ++ arrival.1 :: arrivals.map Prod.fst).Nodup :=
      hperm.nodup_iff.mpr (List.Nodup.of_map _ hfamily.stamps)
    have hmem : ∀ v ∈ seen ++ arrival.1 :: arrivals.map Prod.fst, v ∈ versions :=
      fun v hv => hperm.mem_iff.mp hv
    have hnew : arrival.1 ∉ seen := fun hin =>
      (List.nodup_append.mp hnodup).2.2 _ hin _ (List.mem_cons_self ..) rfl
    have hmerged := h.merge hfamily hstart (fun v hv => hmem v (List.mem_append_left _ hv))
      (hmem _ (List.mem_append_right _ (List.mem_cons_self ..))) hnew arrival.2
    obtain ⟨best', hall⟩ := ih hmerged (List.perm_middle.symm.trans hperm)
    refine ⟨best', ?_⟩
    show Gathered id start ((arrival.1 :: arrivals.map Prod.fst).reverse ++ seen) best' _
    rw [List.reverse_cons, List.append_assoc]
    exact hall

theorem not_outranks_both {v w : Note} (h : v.Outranks w) (h' : w.Outranks v) : False := by
  unfold Note.Outranks at h h'
  cases hv : v.deleted <;> cases hw : w.deleted <;> simp [hv, hw] at h h' <;> omega

/-- What is gathered does not depend on the order. -/
theorem Gathered.unique {seen' : List Note} {best' : Note} {s s' : Shelf}
    (h : Gathered id start seen best s) (h' : Gathered id start seen' best' s')
    (hsame : ∀ v, v ∈ seen ↔ v ∈ seen') : best = best' ∧ s.notes = s'.notes := by
  have hbest : best = best' := by
    by_contra hne
    exact not_outranks_both (h.outranks best' ((hsame best').mpr h'.mem) (Ne.symm hne))
      (h'.outranks best ((hsame best).mp h.mem) hne)
  subst hbest
  refine ⟨rfl, Std.ExtTreeMap.ext_getElem? (fun k => ?_)⟩
  by_cases hk : k = id
  · rw [hk, h.kept, h'.kept]
  · by_cases hcopy : ∃ v ∈ seen, v ≠ best ∧ v.deleted = false ∧ k = copyId id v.modified
    · obtain ⟨v, hv, hne, hlive, rfl⟩ := hcopy
      rw [h.copies v hv hne hlive, h'.copies v ((hsame v).mp hv) hne hlive]
    · rw [h.rest k hk (fun v hv hne hlive heq => hcopy ⟨v, hv, hne, hlive, heq⟩),
        h'.rest k hk (fun v hv hne hlive heq =>
          hcopy ⟨v, (hsame v).mpr hv, hne, hlive, heq⟩)]

end Gathering

/-- The live version with the latest stamp, or the latest deletion if no version
is live. -/
structure Keeper (versions : List Note) (best : Note) : Prop where
  mem : best ∈ versions
  live : best.deleted = false → ∀ v ∈ versions, v.deleted = false → v.modified ≤ best.modified
  deleted : best.deleted = true → ∀ v ∈ versions, v.deleted = true ∧ v.modified ≤ best.modified

theorem keeper_of_outranks {versions : List Note} {best : Note} (hmem : best ∈ versions)
    (houtranks : ∀ v ∈ versions, v ≠ best → best.Outranks v) : Keeper versions best where
  mem := hmem
  live hlive v hv hvlive := by
    by_cases hne : v = best
    · rw [hne]
    · have h := houtranks v hv hne
      simp only [Note.Outranks, hlive, hvlive, Bool.false_eq_true, and_false, true_and,
        false_or] at h
      omega
  deleted hdeleted v hv := by
    by_cases hne : v = best
    · rw [hne]
      exact ⟨hdeleted, le_rfl⟩
    · have h := houtranks v hv hne
      simp only [Note.Outranks, hdeleted, Bool.true_eq_false, false_and, false_or] at h
      exact ⟨h.1.symm, by omega⟩

/-- The versions of a family come to a shelf that holds one of them and none of
their copies. In whatever order they come, and from whichever phones, the notes
are the same: the keeper under the id, one copy of every other live version, and
every other note as it was. -/
theorem siblings_any_order (id : String) (versions : List Note) (hfamily : Family id versions)
    (start : Shelf) (stored : Note) (hmem : stored ∈ versions)
    (hstored : start.notes[id]? = some stored)
    (hcopies : ∀ v ∈ versions, start.notes[copyId id v.modified]? = none) :
    ∃ (best : Note) (notes : KeyMap Note), Keeper versions best ∧ notes[id]? = some best ∧
      (∀ v ∈ versions, v ≠ best → v.deleted = false →
        notes[copyId id v.modified]? = some v.copyOf) ∧
      (∀ k, k ≠ id →
        (∀ v ∈ versions, v ≠ best → v.deleted = false → k ≠ copyId id v.modified) →
        notes[k]? = start.notes[k]?) ∧
      ∀ arrivals : List (Note × String), (stored :: arrivals.map Prod.fst).Perm versions →
        (mergeAll start arrivals).notes = notes := by
  have hgathered (arrivals : List (Note × String))
      (hperm : (stored :: arrivals.map Prod.fst).Perm versions) :
      ∃ best, Gathered id start ((arrivals.map Prod.fst).reverse ++ [stored]) best
        (mergeAll start arrivals) :=
    gathered_mergeAll hfamily hcopies (gathered_start hstored) hperm
  have hseen (arrivals : List (Note × String))
      (hperm : (stored :: arrivals.map Prod.fst).Perm versions) (v : Note) :
      v ∈ (arrivals.map Prod.fst).reverse ++ [stored] ↔ v ∈ versions := by
    rw [← hperm.mem_iff, List.mem_append, List.mem_reverse, List.mem_singleton, List.mem_cons,
      or_comm]
  -- One order, to compare the others with.
  have hone : (stored :: ((versions.erase stored).map (fun v => (v, ""))).map Prod.fst).Perm
      versions := by
    rw [List.map_map]
    have hmap : (versions.erase stored).map (Prod.fst ∘ fun v : Note => (v, ""))
        = versions.erase stored := List.map_id _
    rw [hmap]
    exact (List.perm_cons_erase hmem).symm
  obtain ⟨best, hall⟩ := hgathered _ hone
  refine ⟨best, _, keeper_of_outranks ((hseen _ hone best).mp hall.mem) ?_, hall.kept, ?_, ?_, ?_⟩
  · exact fun v hv => hall.outranks v ((hseen _ hone v).mpr hv)
  · exact fun v hv => hall.copies v ((hseen _ hone v).mpr hv)
  · exact fun k hk hother => hall.rest k hk (fun v hv => hother v ((hseen _ hone v).mp hv))
  · intro arrivals hperm
    obtain ⟨best', hall'⟩ := hgathered arrivals hperm
    exact (hall'.unique hall (fun v => (hseen _ hperm v).trans (hseen _ hone v).symm)).2

/-- Two lists and a deletion that do not know of each other. -/
def listFamily : List Note :=
  [listVersion "milk" 5 false, listVersion "bread" 3 false, listVersion "" 10 true]

theorem family_listFamily : Family "list" listFamily where
  id_eq := by decide
  stamps := by decide
  apart := by decide
  differ := by decide

/-- Three versions of a list, in two orders. -/
theorem siblings_any_order_listFamily :
    (mergeAll listShelf
          [(listVersion "bread" 3 false, "phone"), (listVersion "" 10 true, "tablet")]).notes
        = (mergeAll listShelf
          [(listVersion "" 10 true, "tablet"), (listVersion "bread" 3 false, "phone")]).notes ∧
      (mergeAll listShelf
        [(listVersion "" 10 true, "tablet"), (listVersion "bread" 3 false, "phone")]).notes["list"]?
        = some (listVersion "milk" 5 false) := by
  obtain ⟨best, notes, -, -, -, -, hall⟩ := siblings_any_order "list" listFamily family_listFamily
    listShelf (listVersion "milk" 5 false) (by decide) (by decide +kernel) (by decide +kernel)
  refine ⟨?_, by decide +kernel⟩
  rw [hall _ (by decide), hall _ (by decide)]

end DeskLink.Notes
