import DeskLink.Lib.Text
import DeskLink.Proofs.Notes.AnyOrder

/-!
# `DeskLink.Proofs.Notes.Caps`: what a peer can make a shelf hold

`Shelf.Capped` lists the caps of a shelf: the entries of its two maps, the
phones remembered of a note, and the ancestors a note names. Every packet
keeps them, whoever sends it: an item adds one entry at most, and only to
a shelf with room.

The room is tested before a note is merged, whatever its merge needs. So a
full shelf refuses updates of the notes it has, where a full shelf of
snippets takes them:

* `shelf_capped`: along any packets the caps hold; an update of a snippet
  held is taken, and one of a note held is taken exactly when the shelf is
  not full.
* `update_refused`: a full shelf refuses an edit of a note that it has.
-/

set_option autoImplicit false

namespace DeskLink.Notes

/-- A shelf within its caps. -/
structure Shelf.Capped (s : Shelf) : Prop where
  keyed : s.Keyed
  notes : s.notes.size ≤ maxNoteEntries
  snippets : s.snippets.size ≤ maxSnippetEntries
  held : ∀ (id : String) (peers : KeyMap Int), s.held[id]? = some peers →
    peers.size ≤ maxPeersPerNote
  sent : ∀ (id : String) (peers : KeyMap Int), s.sent[id]? = some peers →
    peers.size ≤ maxPeersPerNote
  ancestors : ∀ (id : String) (n : Note), s.notes[id]? = some n → n.ancestors.length ≤ maxAncestors

/-! ### Sizes -/

theorem size_insert_held {V : Type} {m : KeyMap V} {k : String} {v w : V} (h : m[k]? = some w) :
    (m.insert k v).size = m.size := by
  rw [Std.ExtTreeMap.size_insert, Std.ExtTreeMap.contains_eq_isSome_getElem?, h]
  rfl

/-- The older of two entries; the first of equals. -/
def olderEntry (best : Option (String × Int)) (entry : String × Int) : Option (String × Int) :=
  match best with
  | none => some entry
  | some known => if entry.2 < known.2 then some entry else some known

theorem oldestPeer_eq (peers : KeyMap Int) :
    oldestPeer peers = (peers.toList.foldl olderEntry none).map (·.1) := rfl

/-- The oldest entry of a list is one of it, and no other is older. -/
theorem foldl_olderEntry (entries : List (String × Int)) (known : String × Int) :
    ∃ oldest, entries.foldl olderEntry (some known) = some oldest ∧
      oldest ∈ known :: entries ∧ ∀ entry ∈ known :: entries, oldest.2 ≤ entry.2 := by
  induction entries generalizing known with
  | nil => exact ⟨known, rfl, List.mem_singleton_self known, by simp⟩
  | cons first rest ih =>
    rw [List.foldl_cons]
    show ∃ oldest, rest.foldl olderEntry (if first.2 < known.2 then some first else some known)
      = some oldest ∧ _
    split
    · rename_i hlt
      obtain ⟨oldest, hfold, hmem, hmin⟩ := ih first
      refine ⟨oldest, hfold, List.mem_cons_of_mem known hmem, ?_⟩
      intro entry hentry
      cases List.mem_cons.mp hentry with
      | inl heq =>
        have hfirst := hmin first List.mem_cons_self
        rw [heq]
        omega
      | inr hrest => exact hmin entry hrest
    · rename_i hle
      obtain ⟨oldest, hfold, hmem, hmin⟩ := ih known
      have hknown := hmin known List.mem_cons_self
      refine ⟨oldest, hfold, ?_, ?_⟩
      · cases List.mem_cons.mp hmem with
        | inl heq => exact heq ▸ List.mem_cons_self
        | inr hrest => exact List.mem_cons_of_mem known (List.mem_cons_of_mem first hrest)
      · intro entry hentry
        cases List.mem_cons.mp hentry with
        | inl heq => exact heq ▸ hknown
        | inr hrest =>
          cases List.mem_cons.mp hrest with
          | inl heq =>
            rw [heq]
            omega
          | inr hmore => exact hmin entry (List.mem_cons_of_mem known hmore)

/-- The phone that goes is one with the oldest version. -/
theorem oldestPeer_spec {peers : KeyMap Int} (h : 0 < peers.size) :
    ∃ oldest v, oldestPeer peers = some oldest ∧ peers[oldest]? = some v ∧
      ∀ (peer : String) (w : Int), peers[peer]? = some w → v ≤ w := by
  have hlength : 0 < peers.toList.length := by
    rw [Std.ExtTreeMap.length_toList]
    exact h
  have hmem (peer : String) (w : Int) : (peer, w) ∈ peers.toList ↔ peers[peer]? = some w :=
    Std.ExtTreeMap.mem_toList_iff_getElem?_eq_some
  rw [oldestPeer_eq]
  generalize peers.toList = entries at hlength hmem
  cases entries with
  | nil => exact absurd hlength (by simp)
  | cons first rest =>
    obtain ⟨⟨oldest, v⟩, hfold, hin, hmin⟩ := foldl_olderEntry rest first
    refine ⟨oldest, v, ?_, (hmem oldest v).mp hin, ?_⟩
    · show (rest.foldl olderEntry (some first)).map (·.1) = some oldest
      rw [hfold]
      rfl
    · intro peer w hw
      exact hmin (peer, w) ((hmem peer w).mpr hw)

/-- Each round of the eviction drops one phone. -/
theorem evictPeers_size (fuel : Nat) (peers : KeyMap Int)
    (h : peers.size ≤ fuel + maxPeersPerNote) :
    (evictPeers fuel peers).size ≤ maxPeersPerNote := by
  induction fuel generalizing peers with
  | zero => simpa [evictPeers] using h
  | succ fuel ih =>
    unfold evictPeers
    split
    · rename_i hmany
      obtain ⟨oldest, v, holdest, hv, -⟩ :=
        oldestPeer_spec (Nat.lt_of_le_of_lt (Nat.zero_le _) hmany)
      rw [holdest]
      apply ih
      rw [Std.ExtTreeMap.size_erase, Std.ExtTreeMap.contains_eq_isSome_getElem?, hv]
      simp only [Option.isSome_some, if_pos]
      omega
    · rename_i hfew
      exact Nat.le_of_not_lt hfew

/-- The phones remembered of each note stay few. -/
theorem recordPeer_size {marks : Marks}
    (h : ∀ (id : String) (peers : KeyMap Int), marks[id]? = some peers →
      peers.size ≤ maxPeersPerNote) (note peer : String) (v : Int) :
    ∀ (id : String) (peers : KeyMap Int), (recordPeer marks note peer v)[id]? = some peers →
      peers.size ≤ maxPeersPerNote := by
  intro id peers hpeers
  unfold recordPeer at hpeers
  split at hpeers
  · exact h id peers hpeers
  · simp only [getElem?_keyInsert] at hpeers
    split at hpeers
    · cases hpeers
      exact evictPeers_size _ _ (Nat.le_add_right _ _)
    · exact h id peers hpeers

namespace Shelf.Capped
variable {s : Shelf} {n : Note}

/-! ### The marks -/

theorem recordHeld (h : s.Capped) (id peer : String) (v : Int) :
    (s.recordHeld id peer v).Capped :=
  { h with held := recordPeer_size h.held id peer v }

theorem recordSent (h : s.Capped) (id peer : String) (v : Int) :
    (s.recordSent id peer v).Capped :=
  { h with sent := recordPeer_size h.sent id peer v }

theorem setSynced (h : s.Capped) (synced : KeyMap Int) : { s with synced := synced }.Capped :=
  { h with }

theorem acknowledge (h : s.Capped) (id : String) (m : Int) (peer : String) :
    (Notes.acknowledge s id m peer).1.Capped := by
  unfold Notes.acknowledge
  split
  · exact h
  · split
    · exact h
    · -- Both marks may move; neither touches a note.
      have hsynced (syncs : Bool) :
          (if syncs = true then { s with synced := s.synced.insert id m } else s).Capped := by
        cases syncs with
        | true => exact h.setSynced _
        | false => exact h
      simp only
      split
      · exact (hsynced _).recordHeld id peer m
      · exact hsynced _

/-! ### A note filed -/

/-- A version is stored, where the shelf does not grow past its bound. -/
theorem insert (h : s.Capped) (hn : n.ancestors.length ≤ maxAncestors)
    (hsize : (s.notes.insert n.id n).size ≤ maxNoteEntries) :
    { s with notes := s.notes.insert n.id n }.Capped where
  keyed := h.keyed.insert n rfl
  notes := hsize
  snippets := h.snippets
  held := h.held
  sent := h.sent
  ancestors := by
    intro id n' hn'
    rw [getElem?_keyInsert] at hn'
    split at hn'
    · cases hn'
      exact hn
    · exact h.ancestors id n' hn'

theorem replace (h : s.Capped) {mine : Note} (hmine : s.notes[n.id]? = some mine)
    (hn : n.ancestors.length ≤ maxAncestors) :
    { s with notes := s.notes.insert n.id n }.Capped :=
  h.insert hn (by rw [size_insert_held hmine]; exact h.notes)

/-- A shelf with room takes one more. -/
theorem add (h : s.Capped) (hroom : s.notes.size < maxNoteEntries)
    (hn : n.ancestors.length ≤ maxAncestors) :
    { s with notes := s.notes.insert n.id n }.Capped :=
  h.insert hn (Std.ExtTreeMap.size_insert_le.trans hroom)

theorem keepCopy (h : s.Capped) (hroom : s.notes.size < maxNoteEntries) {loser : Note}
    (hl : loser.ancestors.length ≤ maxAncestors) : (s.keepCopy loser).Capped :=
  (h.setSynced (s.synced.insert loser.copyOf.id loser.copyOf.modified)).add (n := loser.copyOf)
    hroom hl

theorem takeOver (h : s.Capped) {mine : Note} (hmine : s.notes[n.id]? = some mine)
    (hn : n.ancestors.length ≤ maxAncestors) (peer : String) : (s.take n peer).Capped :=
  ((h.setSynced _).recordHeld n.id peer n.modified).replace hmine hn

/-! ### The steps of a packet -/

/-- The merge of a valid note into a shelf with room. -/
theorem mergeNoteFrom (h : s.Capped) (hvalid : validNote n = true)
    (hroom : s.notes.size < maxNoteEntries) (peer : String) :
    (Notes.mergeNoteFrom s n peer).1.Capped := by
  have hn : n.ancestors.length ≤ maxAncestors := by
    simp only [validNote, Bool.and_eq_true, decide_eq_true_eq] at hvalid
    exact hvalid.1.1.1.2
  have hcase := mergeNoteFrom_cases s n peer
  generalize Notes.mergeNoteFrom s n peer = merged at hcase ⊢
  cases hcase with
  | absent _ => exact ((h.setSynced _).recordHeld n.id peer n.modified).add hroom hn
  | same mine _ _ _ => exact (h.setSynced _).recordHeld mine.id peer mine.modified
  | newer mine hmine _ => exact h.takeOver hmine hn peer
  | older mine _ _ _ _ => exact h.recordHeld mine.id peer n.modified
  | sibling mine hmine _ _ _ =>
    have hid : mine.id = n.id := h.keyed _ _ hmine
    have hmine' : mine.ancestors.length ≤ maxAncestors := h.ancestors _ _ hmine
    -- The copy is the one entry that is added: the winner's id is in use.
    have hstays (loser : Note) : (s.keepCopy loser).notes[n.id]? = some loser.copyOf ∨
        (s.keepCopy loser).notes[n.id]? = some mine := by
      rw [keepCopy_notes, getElem?_keyInsert]
      split
      · exact .inl rfl
      · exact .inr hmine
    have hover (loser winner : Note) (hl : (s.keepCopy loser).Capped) (hw : winner.id = n.id)
        (hwin : winner.ancestors.length ≤ maxAncestors) :
        { s.keepCopy loser with
          notes := (s.keepCopy loser).notes.insert winner.id winner }.Capped := by
      cases hstays loser with
      | inl hthere => exact hl.replace (by rw [hw]; exact hthere) hwin
      | inr hthere => exact hl.replace (by rw [hw]; exact hthere) hwin
    rw [mergeSiblings_eq]
    split
    · exact h
    · exact (hover n mine (h.keepCopy hroom hn) hid hmine').setSynced _
    · exact h.takeOver hmine hn peer
    · cases hstays mine with
      | inl hthere => exact (h.keepCopy hroom hmine').takeOver hthere hn peer
      | inr hthere => exact (h.keepCopy hroom hmine').takeOver hthere hn peer

theorem mergeSnippet (h : s.Capped) {n : Snippet}
    (hroom : s.snippets[n.id]? = none → s.snippets.size < maxSnippetEntries) :
    (Notes.mergeSnippet s n).1.Capped := by
  have htaken : { s with snippets := s.snippets.insert n.id n }.Capped := by
    refine { h with snippets := ?_ }
    show (s.snippets.insert n.id n).size ≤ maxSnippetEntries
    cases hmine : s.snippets[n.id]? with
    | none =>
      have hsize : (s.snippets.insert n.id n).size ≤ s.snippets.size + 1 :=
        Std.ExtTreeMap.size_insert_le
      have := hroom hmine
      omega
    | some mine =>
      rw [size_insert_held hmine]
      exact h.snippets
  unfold Notes.mergeSnippet
  split
  · split
    · exact h
    · exact htaken
  · exact htaken

/-- A packet keeps the caps. -/
theorem handleFrom (h : s.Capped) (packet : Packet) (peer : String) :
    (Notes.handleFrom s packet peer).1.Capped :=
  handleFrom_keeps_checked (fun _ _ _ hvalid hroom hs => hs.mergeNoteFrom hvalid hroom peer)
    (fun _ id m hs => hs.acknowledge id m peer)
    (fun _ id n _ hs => hs.recordSent id peer n.modified)
    (fun _ _ _ hroom hs => hs.mergeSnippet hroom) h

end Shelf.Capped

variable {s : Shelf} {mine n : Note} {count : Nat}

/-! ### Along any packets -/

/-- Packets, each from a phone, one after another. -/
def receiveAll (s : Shelf) (packets : List (Packet × String)) : Shelf :=
  packets.foldl (fun s p => (handleFrom s p.1 p.2).1) s

/-- Packets keep the caps. -/
theorem Shelf.Capped.receiveAll (h : s.Capped) (packets : List (Packet × String)) :
    (Notes.receiveAll s packets).Capped := by
  induction packets generalizing s with
  | nil => exact h
  | cons p packets ih => exact ih (h.handleFrom p.1 p.2)

/-- N2 puts the version `n` in the place of `mine`: it was made from it, or
it wins over it as a sibling. -/
def Replaces (mine n : Note) : Prop :=
  ¬(mine.modified = n.modified ∧ mine.sameContent n = true) ∧
    (n.names mine.modified = true ∨
      (mine.names n.modified = false ∧ incomingWins mine n = true))

/-- The merge puts a version that replaces the stored one in its place. -/
theorem mergeNoteFrom_replaces (hmine : s.notes[n.id]? = some mine) (hn : Replaces mine n)
    (peer : String) :
    (mergeNoteFrom s n peer).1.notes[n.id]? = some n := by
  obtain ⟨hdiff, hwins⟩ := hn
  have hcase := mergeNoteFrom_cases s n peer
  generalize mergeNoteFrom s n peer = merged at hcase ⊢
  cases hcase with
  | absent hnone =>
    rw [hnone] at hmine
    cases hmine
  | same mine' hmine' hstamp hcontent =>
    rw [hmine] at hmine'
    cases hmine'
    exact absurd ⟨hstamp, hcontent⟩ hdiff
  | newer mine' _ _ => simp
  | older mine' hmine' _ hnames hnamed =>
    rw [hmine] at hmine'
    cases hmine'
    simp [hnames, hnamed] at hwins
  | sibling mine' hmine' _ hnames hnamed =>
    rw [hmine] at hmine'
    cases hmine'
    have hwin : incomingWins mine n = true := by simpa [hnames, hnamed] using hwins
    rw [mergeSiblings_eq, hwin]
    cases makesCopy s mine n with
    | true => simp
    | false => simp

/-- A version that replaces the stored one is another version. -/
theorem Replaces.ne (h : Replaces mine n) : mine ≠ n := by
  intro heq
  subst heq
  exact h.1 ⟨rfl, by simp [sameContent_iff]⟩

/-- A full shelf refuses every note: the test comes before the merge. -/
theorem handleFrom_full (hfull : maxNoteEntries ≤ s.notes.size) (n : Note) (peer : String) :
    (handleFrom s (.noteItems [n]) peer).1.notes = s.notes := by
  have hnotes : (handleFrom s (.noteItems [n]) peer).1.notes
      = (takeNote peer { shelf := s } n).shelf.notes := handleFrom_notes s (.noteItems [n]) peer
  rw [hnotes]
  unfold takeNote
  simp [hfull]

/-- A valid version of a note held is put in its place when the shelf is
not full, and refused when it is. -/
theorem update_taken_iff (hvalid : validNote n = true) (hmine : s.notes[n.id]? = some mine)
    (hn : Replaces mine n) (peer : String) :
    (handleFrom s (.noteItems [n]) peer).1.notes[n.id]? = some n
      ↔ s.notes.size < maxNoteEntries := by
  by_cases hroom : s.notes.size ≥ maxNoteEntries
  · have hkept : s.notes[n.id]? ≠ some n := by
      rw [hmine]
      exact fun heq => hn.ne (Option.some.inj heq)
    rw [handleFrom_full hroom]
    exact ⟨fun h => absurd h hkept, fun hlt => absurd hroom (Nat.not_le_of_lt hlt)⟩
  · have hnotes : (handleFrom s (.noteItems [n]) peer).1.notes
        = (takeNote peer { shelf := s } n).shelf.notes := handleFrom_notes s (.noteItems [n]) peer
    rw [hnotes]
    unfold takeNote
    rw [hvalid]
    have hmerged := mergeNoteFrom_replaces hmine hn peer
    simp only [Bool.not_true, Bool.false_eq_true, if_false, hroom]
    generalize mergeNoteFrom s n peer = merged at hmerged ⊢
    obtain ⟨shelf, outcome⟩ := merged
    have hlt : s.notes.size < maxNoteEntries := Nat.lt_of_not_le hroom
    cases outcome <;> exact ⟨fun _ => hlt, fun _ => hmerged⟩

/-- A valid newer snippet of an id held is taken, however full the shelf. -/
theorem snippet_update_taken {mine x : Snippet} (hvalid : validSnippet x = true)
    (hmine : s.snippets[x.id]? = some mine) (hnewer : mine.modified < x.modified) (peer : String) :
    (handleFrom s (.snippetItems [x]) peer).1.snippets[x.id]? = some x := by
  have hmerge : mergeSnippet s x = ({ s with snippets := s.snippets.insert x.id x }, true) := by
    unfold mergeSnippet
    rw [hmine]
    simp only
    rw [if_neg (by omega)]
  have htaken : takeSnippet { shelf := s } x
      = { shelf := { s with snippets := s.snippets.insert x.id x }, changed := true } := by
    unfold takeSnippet
    have hheld : s.snippets.contains x.id = true := by
      rw [Std.ExtTreeMap.contains_eq_isSome_getElem?, hmine]
      rfl
    rw [hvalid, hheld, hmerge]
    rfl
  have hsnippets : (handleFrom s (.snippetItems [x]) peer).1
      = sentTo (takeSnippet { shelf := s } x).shelf .snippets
          (takeSnippet { shelf := s } x).sendBack peer := rfl
  rw [hsnippets, htaken]
  show (s.snippets.insert x.id x)[x.id]? = some x
  simp

/-- Along any packets from any phones the shelf stays within its caps. A
newer snippet of an id held is always taken, and a version of a note held
exactly when the shelf is not full. -/
theorem shelf_capped (s : Shelf) (hs : s.Capped) (packets : List (Packet × String)) :
    (receiveAll s packets).Capped ∧
      (∀ x mine : Snippet, ∀ peer, validSnippet x = true →
        (receiveAll s packets).snippets[x.id]? = some mine → mine.modified < x.modified →
        (handleFrom (receiveAll s packets) (.snippetItems [x]) peer).1.snippets[x.id]? = some x) ∧
      (∀ n mine : Note, ∀ peer, validNote n = true →
        (receiveAll s packets).notes[n.id]? = some mine → Replaces mine n →
        ((handleFrom (receiveAll s packets) (.noteItems [n]) peer).1.notes[n.id]? = some n
          ↔ (receiveAll s packets).notes.size < maxNoteEntries)) :=
  ⟨hs.receiveAll packets,
    fun _ _ peer hvalid hmine hnewer => snippet_update_taken hvalid hmine hnewer peer,
    fun _ _ peer hvalid hmine hn => update_taken_iff hvalid hmine hn peer⟩

/-! ### A full shelf -/

/-- A note with a text and no history. -/
def plainNote (id : String) : Note where
  id := id
  title := ""
  body := "milk"
  pinned := false
  created := 1
  modified := 1
  parent := 0
  ancestors := []
  deleted := false

/-- The deletion of a plain note. -/
def plainDeletion (id : String) : Note :=
  { plainNote id with body := "", deleted := true, modified := 2, parent := 1, ancestors := [1] }

/-- `count` plain notes, called by their numbers. -/
def numbered : Nat → KeyMap Note
  | 0 => ∅
  | n + 1 => (numbered n).insert (toString (n : Int)) (plainNote (toString (n : Int)))

theorem numbered_cases {k : String} (h : (numbered count)[k]? = some n) :
    n = plainNote k ∧ ∃ i < count, k = toString (i : Int) := by
  induction count with
  | zero => simp [numbered] at h
  | succ count ih =>
    rw [numbered, getElem?_keyInsert] at h
    split at h
    · rename_i hk
      cases h
      exact ⟨by rw [hk], count, Nat.lt_succ_self count, hk.symm⟩
    · obtain ⟨hn, i, hi, hk⟩ := ih h
      exact ⟨hn, i, Nat.lt_succ_of_lt hi, hk⟩

theorem numbered_size (count : Nat) : (numbered count).size = count := by
  induction count with
  | zero => rfl
  | succ count ih =>
    have hfresh : (numbered count)[toString (count : Int)]? = none := by
      cases hget : (numbered count)[toString (count : Int)]? with
      | none => rfl
      | some n =>
        obtain ⟨-, i, hi, hk⟩ := numbered_cases hget
        have heq : (count : Int) = i := Lib.toString_int_inj hk
        omega
    rw [numbered, Std.ExtTreeMap.size_insert, Std.ExtTreeMap.contains_eq_isSome_getElem?, hfresh, ih]
    rfl

theorem numbered_zero (h : 0 < count) : (numbered count)["0"]? = some (plainNote "0") := by
  induction count with
  | zero => omega
  | succ count ih =>
    rw [numbered, getElem?_keyInsert]
    split
    · rename_i hk
      rw [hk]
    · rename_i hk
      refine ih (Nat.pos_of_ne_zero (fun hzero => hk ?_))
      rw [hzero]
      decide

theorem numbered_capped (h : count ≤ maxNoteEntries) :
    Shelf.Capped { notes := numbered count } where
  keyed := by
    intro k n hn
    obtain ⟨rfl, -⟩ := numbered_cases hn
    rfl
  notes := by
    show (numbered count).size ≤ maxNoteEntries
    rw [numbered_size]
    exact h
  snippets := Nat.zero_le _
  held := by
    intro id peers hpeers
    simp at hpeers
  sent := by
    intro id peers hpeers
    simp at hpeers
  ancestors := by
    intro id n hn
    obtain ⟨rfl, -⟩ := numbered_cases hn
    exact Nat.zero_le _

theorem plainDeletion_replaces : Replaces (plainNote "0") (plainDeletion "0") :=
  ⟨by decide, .inl (by decide)⟩

/-- With room left the deletion of a note held is taken. -/
theorem shelf_capped_numbered :
    (handleFrom (receiveAll { notes := numbered 3 } [(.ack [("1", 1)], "tablet")])
      (.noteItems [plainDeletion "0"]) "phone").1.notes["0"]? = some (plainDeletion "0") :=
  ((shelf_capped { notes := numbered 3 } (numbered_capped (by decide))
    [(.ack [("1", 1)], "tablet")]).2.2 (plainDeletion "0") (plainNote "0") "phone" (by decide)
    (by rfl) plainDeletion_replaces).mpr (by decide +kernel)

/-- A full shelf refuses the deletion of a note that it has. -/
theorem update_refused :
    Shelf.Capped { notes := numbered maxNoteEntries } ∧
      validNote (plainDeletion "0") = true ∧
      Replaces (plainNote "0") (plainDeletion "0") ∧
      (handleFrom { notes := numbered maxNoteEntries } (.noteItems [plainDeletion "0"])
        "phone").1.notes["0"]? = some (plainNote "0") := by
  refine ⟨numbered_capped le_rfl, by decide, plainDeletion_replaces, ?_⟩
  have hfull : maxNoteEntries ≤ ({ notes := numbered maxNoteEntries } : Shelf).notes.size := by
    rw [numbered_size]
  rw [handleFrom_full hfull]
  exact numbered_zero (by decide)

end DeskLink.Notes
