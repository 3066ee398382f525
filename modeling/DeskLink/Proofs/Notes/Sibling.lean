import Mathlib.Data.String.Basic
import DeskLink.Proofs.Notes.Wire

/-!
# `DeskLink.Proofs.Notes.Sibling`: two versions edited from the same one

Two shelves hold siblings `a` and `b` of one note and send them to each
other. `sibling_resolution_iff` says when they come to the same version
under the id and the same conflicted copies, and stop answering each
other: exactly when the siblings are not `Tied`. Tied siblings carry one
stamp and one body and differ in the title or the pin alone. The test
`(modified, body) > (modified, body)` is then false on both sides, so each
side keeps its own version and files the other as the copy.

The exchange is bounded by a measure. One side holds the winner from the
start. The other changes to it once, and only a packet with the loser
makes the holder of the winner answer with a note.
-/

set_option autoImplicit false

namespace DeskLink.Notes

variable {a b loser winner : Note} {peer : String} {s : Shelf}
variable {answers : List Packet} {notes : KeyMap Note} {side : Side} {w : World}

/-- Different versions of one note, neither made from the other as far as
their stamps say. -/
structure Siblings (a b : Note) : Prop where
  id_eq : a.id = b.id
  differ : ¬(a.modified = b.modified ∧ a.sameContent b = true)
  left : a.names b.modified = false
  right : b.names a.modified = false

theorem Siblings.symm (h : Siblings a b) : Siblings b a where
  id_eq := h.id_eq.symm
  differ hab := h.differ ⟨hab.1.symm, by rw [sameContent_comm]; exact hab.2⟩
  left := h.right
  right := h.left

/-- One stamp, one body, both live or both deleted. -/
def Tied (a b : Note) : Prop :=
  a.modified = b.modified ∧ a.body = b.body ∧ a.deleted = b.deleted

instance (a b : Note) : Decidable (Tied a b) :=
  inferInstanceAs (Decidable (_ ∧ _ ∧ _))

/-! ### The winner is the same on both sides -/

/-- Siblings that are not tied have one winner, whichever side looks. -/
theorem incomingWins_swap (h : Siblings a b) (ht : ¬Tied a b) :
    incomingWins b a = !incomingWins a b := by
  have hne := h.differ
  unfold incomingWins
  rw [sameContent_comm b a]
  by_cases hdel : a.deleted = b.deleted
  · have hdel' : (a.deleted != b.deleted) = false := by simp [hdel]
    have hdel'' : (b.deleted != a.deleted) = false := by simp [hdel]
    rw [hdel', hdel'']
    by_cases hsame : a.sameContent b = true
    · have hmod : a.modified ≠ b.modified := fun hm => hne ⟨hm, hsame⟩
      simp only [hsame, Bool.true_or, if_true, Bool.false_eq_true, if_false]
      rw [Bool.eq_iff_iff, decide_eq_true_iff, Bool.not_eq_true', decide_eq_false_iff_not]
      omega
    · simp only [hsame, Bool.or_false, Bool.false_eq_true, if_false]
      rw [Bool.eq_iff_iff, decide_eq_true_iff, Bool.not_eq_true', decide_eq_false_iff_not]
      -- Equal stamps leave the bodies to decide, and they differ.
      rcases lt_trichotomy a.modified b.modified with hlt | heq | hgt
      · constructor
        · rintro (hgt | ⟨heq, _⟩) <;> omega
        · intro hnot
          exact absurd (Or.inl hlt) hnot
      · have hbody : a.body ≠ b.body := fun hb => ht ⟨heq, hb, hdel⟩
        simp only [heq, lt_irrefl, gt_iff_lt, true_and, false_or]
        exact ⟨fun hlt => not_lt.mpr hlt.le, fun hnot => lt_of_le_of_ne (not_lt.mp hnot) hbody.symm⟩
      · constructor
        · intro _ hnot
          rcases hnot with hlt | ⟨heq, _⟩ <;> omega
        · intro _
          exact Or.inl hgt
  · have hdel' : (a.deleted != b.deleted) = true := by simp [hdel]
    have hdel'' : (b.deleted != a.deleted) = true := by simpa using Ne.symm hdel
    rw [hdel', hdel'']
    simp only [Bool.or_true, if_true]
    cases ha : a.deleted <;> cases hb : b.deleted <;> simp_all

/-- Tied siblings: each side keeps its own. -/
theorem incomingWins_of_tied (h : Siblings a b) (ht : Tied a b) : incomingWins a b = false := by
  obtain ⟨hm, hb, hd⟩ := ht
  have hsame : a.sameContent b = false := by
    cases hs : a.sameContent b with
    | false => rfl
    | true => exact absurd ⟨hm, hs⟩ h.differ
  simp [incomingWins, hsame, hd, hm, hb]

theorem mergeNoteFrom_siblings (h : Siblings a b) (hs : s.notes[a.id]? = some a) :
    mergeNoteFrom s b peer = mergeSiblings s a b peer := by
  rw [h.id_eq] at hs
  simp [mergeNoteFrom, hs, h.differ, h.left, h.right]

/-! ### The same version and the same copies -/

/-- The shelf holding `a` that merges `b` and the shelf holding `b` that
merges `a` end with the same version under the id and the same conflicted
copies, when they held the same copies of the note before. -/
def ResolveAlike (a b : Note) : Prop :=
  ∀ (s t : Shelf) (p q : String), s.notes[a.id]? = some a → t.notes[b.id]? = some b →
    (∀ m, s.notes[copyId a.id m]? = t.notes[copyId a.id m]?) →
    (mergeNoteFrom s b p).1.notes[a.id]? = (mergeNoteFrom t a q).1.notes[a.id]? ∧
    ∀ m, (mergeNoteFrom s b p).1.notes[copyId a.id m]?
      = (mergeNoteFrom t a q).1.notes[copyId a.id m]?

theorem siblingWinner_swap (h : Siblings a b) (ht : ¬Tied a b) :
    siblingWinner b a = siblingWinner a b := by
  unfold siblingWinner
  rw [incomingWins_swap h ht]
  cases incomingWins a b <;> rfl

theorem siblingLoser_swap (h : Siblings a b) (ht : ¬Tied a b) :
    siblingLoser b a = siblingLoser a b := by
  unfold siblingLoser
  rw [incomingWins_swap h ht]
  cases incomingWins a b <;> rfl

theorem siblingLoser_id (h : Siblings a b) : (siblingLoser a b).id = a.id := by
  unfold siblingLoser
  split
  · rfl
  · exact h.id_eq.symm

/-- Siblings that are not tied are resolved alike. -/
theorem resolveAlike_of_not_tied (h : Siblings a b) (ht : ¬Tied a b) : ResolveAlike a b := by
  intro s t p q hs ht' hcopies
  rw [mergeNoteFrom_siblings h hs, mergeNoteFrom_siblings h.symm ht']
  have hs' : s.notes[b.id]? = some a := h.id_eq ▸ hs
  have ht'' : t.notes[a.id]? = some b := h.id_eq ▸ ht'
  have hmakes : makesCopy s a b = makesCopy t b a := by
    unfold makesCopy
    rw [siblingWinner_swap h ht, siblingLoser_swap h ht, copyOf_id, siblingLoser_id h,
      Std.ExtTreeMap.contains_eq_isSome_getElem?, Std.ExtTreeMap.contains_eq_isSome_getElem?,
      hcopies]
  constructor
  · rw [mergeSiblings_notes s a b p a.id hs' h.id_eq,
      mergeSiblings_notes t b a q a.id ht'' h.id_eq.symm,
      if_pos h.id_eq, if_pos rfl, siblingWinner_swap h ht]
  · intro m
    rw [mergeSiblings_notes s a b p _ hs' h.id_eq, mergeSiblings_notes t b a q _ ht'' h.id_eq.symm,
      if_neg (h.id_eq ▸ copyId_ne a.id m), if_neg (copyId_ne a.id m), hmakes,
      siblingLoser_swap h ht, hcopies]

/-- The shelf that holds `n` and nothing else. -/
def shelfOf (n : Note) : Shelf := { notes := (∅ : KeyMap Note).insert n.id n }

/-- Tied siblings are not resolved alike: each shelf keeps its own version. -/
theorem not_resolveAlike_of_tied (h : Siblings a b) (ht : Tied a b) : ¬ResolveAlike a b := by
  intro halike
  have ha : (shelfOf a).notes[a.id]? = some a := by simp [shelfOf]
  have hb : (shelfOf b).notes[b.id]? = some b := by simp [shelfOf]
  have hcopies : ∀ m, (shelfOf a).notes[copyId a.id m]? = (shelfOf b).notes[copyId a.id m]? := by
    intro m
    have hb' : b.id ≠ copyId a.id m := fun hc =>
      copyId_ne a.id m (hc.symm.trans h.id_eq.symm)
    simp [shelfOf, (copyId_ne a.id m).symm, hb']
  have heq := (halike (shelfOf a) (shelfOf b) "" "" ha hb hcopies).1
  have ha' : (shelfOf a).notes[b.id]? = some a := h.id_eq ▸ ha
  have hb' : (shelfOf b).notes[a.id]? = some b := h.id_eq ▸ hb
  rw [mergeNoteFrom_siblings h ha, mergeNoteFrom_siblings h.symm hb,
    mergeSiblings_notes _ a b _ _ ha' h.id_eq, mergeSiblings_notes _ b a _ _ hb' h.id_eq.symm,
    if_pos h.id_eq, if_pos rfl] at heq
  have htied : Tied b a := ⟨ht.1.symm, ht.2.1.symm, ht.2.2.symm⟩
  simp only [siblingWinner, incomingWins_of_tied h ht, incomingWins_of_tied h.symm htied,
    Bool.false_eq_true, if_false, Option.some.injEq] at heq
  subst heq
  exact h.differ ⟨rfl, by simp [Note.sameContent]⟩

/-! ### The exchange stops -/

/-- `side` holds `a` and the other side `b`, and every packet on its way
is the sender's version. -/
structure Exchange (a b : Note) (side : Side) (w : World) : Prop where
  holds : (w.shelf side).notes[a.id]? = some a
  otherHolds : (w.shelf side.other).notes[b.id]? = some b
  inbox : ∀ p ∈ w.inbox side, p = .noteItems [b]
  otherInbox : ∀ p ∈ w.inbox side.other, p = .noteItems [a]

/-- However the packets of the exchange are delivered, only so many ever
are. -/
def ExchangeStops (a b : Note) : Prop :=
  ∀ side w, Exchange a b side w →
    ∃ bound, ∀ sides w', Lib.runFrom deliver w sides = some w' → sides.length ≤ bound

/-- The exchange seen from the side `side` that held the loser: it may
have changed to the winner, and acknowledgements are on their way too. -/
structure Settling (loser winner : Note) (side : Side) (w : World) : Prop where
  holds : (w.shelf side).notes[loser.id]? = some loser ∨
    (w.shelf side).notes[loser.id]? = some winner
  otherHolds : (w.shelf side.other).notes[loser.id]? = some winner
  inbox : ∀ p ∈ w.inbox side, p = .noteItems [winner] ∨ ∃ entries, p = .ack entries
  otherInbox : ∀ p ∈ w.inbox side.other,
    p = .noteItems [loser] ∨ p = .noteItems [winner] ∨ ∃ entries, p = .ack entries

/-- A packet weighs more than its answer: at the holder of the winner the
loser is answered with the winner, at the other side the winner is
answered with the winner once, and everything else with an
acknowledgement, which is not answered. -/
def packetWeight (winner : Note) (atHolder : Bool) : Packet → Nat
  | .noteItems items => if atHolder then if items = [winner] then 2 else 4 else 3
  | _ => 1

def exchangeWeight (winner : Note) (side : Side) (w : World) : Nat :=
  ((w.inbox side).map (packetWeight winner false)).sum
    + ((w.inbox side.other).map (packetWeight winner true)).sum

/-- The winner arrives where the loser was: it stays under the id, and the
answer weighs less than it did. -/
theorem winner_arrives (h : Siblings loser winner) (hwins : incomingWins loser winner = true)
    (hs : s.notes[loser.id]? = some loser ∨ s.notes[loser.id]? = some winner)
    (hone : OneNote s winner peer notes answers) :
    (notes[loser.id]? = some loser ∨ notes[loser.id]? = some winner) ∧
    (∀ p ∈ answers, p = .noteItems [winner] ∨ ∃ entries, p = .ack entries) ∧
    (answers.map (packetWeight winner true)).sum < 3 := by
  have hmerged : (mergeNoteFrom s winner peer).1.notes[loser.id]? = some winner := by
    rcases hs with hs | hs
    · rw [mergeNoteFrom_siblings h hs, mergeSiblings_notes s loser winner peer loser.id
        (h.id_eq ▸ hs) h.id_eq, if_pos h.id_eq, siblingWinner, if_pos hwins]
    · have hsame : winner.sameContent winner = true := by simp [Note.sameContent]
      have hs' : s.notes[winner.id]? = some winner := h.id_eq ▸ hs
      simp only [mergeNoteFrom, hs', hsame, and_self, if_true, recordHeld_notes]
      exact hs
  cases hone with
  | refused => exact ⟨hs, by simp, by simp⟩
  | acked _ => exact ⟨Or.inr hmerged, by simp, by simp [packetWeight]⟩
  | answered _ =>
    have hback : [winner.id].filterMap ((mergeNoteFrom s winner peer).1.notes[·]?) = [winner] := by
      simp [h.id_eq ▸ hmerged]
    rw [hback]
    refine ⟨Or.inr hmerged, ?_⟩
    rcases notePackets_singleton winner with hnone | hone <;> simp [*, packetWeight]

/-- A version arrives at the holder of the winner: it keeps the winner, and
the answer weighs less than the packet did. -/
theorem arrives_at_holder {n : Note} (h : Siblings loser winner)
    (hloses : incomingWins winner loser = false) (hn : n = loser ∨ n = winner)
    (hs : s.notes[loser.id]? = some winner) (hone : OneNote s n peer notes answers) :
    notes[loser.id]? = some winner ∧
    (∀ p ∈ answers, p = .noteItems [winner] ∨ ∃ entries, p = .ack entries) ∧
    (answers.map (packetWeight winner false)).sum < packetWeight winner true (.noteItems [n]) := by
  have hid : n.id = loser.id := by
    rcases hn with rfl | rfl
    · rfl
    · exact h.id_eq.symm
  have hs' : s.notes[winner.id]? = some winner := h.id_eq ▸ hs
  have hmerged : (mergeNoteFrom s n peer).1.notes[loser.id]? = some winner := by
    rcases hn with rfl | rfl
    · rw [mergeNoteFrom_siblings h.symm hs', mergeSiblings_notes s winner n peer n.id hs
        h.id_eq.symm, if_pos rfl, siblingWinner, if_neg (by simp [hloses])]
    · have hsame : n.sameContent n = true := by simp [Note.sameContent]
      simp only [mergeNoteFrom, hs', hsame, and_self, if_true, recordHeld_notes]
      exact hs
  cases hone with
  | refused =>
    refine ⟨hs, by simp, ?_⟩
    simp only [packetWeight, List.map_nil, List.sum_nil, if_true]
    split <;> omega
  | acked hout =>
    refine ⟨hmerged, by simp, ?_⟩
    simp only [packetWeight, List.map_cons, List.map_nil, List.sum_cons, List.sum_nil, if_true]
    split <;> omega
  | answered hout =>
    have hback : [n.id].filterMap ((mergeNoteFrom s n peer).1.notes[·]?) = [winner] := by
      simp [hid, hmerged]
    -- The winner itself is the same version, and never sent back.
    have hloser : n ≠ winner := by
      rintro rfl
      have hsame : n.sameContent n = true := by simp [Note.sameContent]
      simp [mergeNoteFrom, hs', hsame] at hout
    rw [hback]
    refine ⟨hmerged, ?_⟩
    rcases notePackets_singleton winner with hnone | hone <;> simp [*, packetWeight]

theorem handleFrom_ack (s : Shelf) (entries : List (String × Int)) (peer : String) :
    (handleFrom s (.ack entries) peer).1.notes = s.notes ∧
      (handleFrom s (.ack entries) peer).2.1 = [] :=
  ⟨acknowledgeAll_notes _ _ _, rfl⟩

/-- Each delivery of the exchange keeps its shape and lowers its weight. -/
theorem deliver_settling (h : Siblings loser winner) (hwins : incomingWins loser winner = true)
    (hloses : incomingWins winner loser = false) {w' : World} (d : Side)
    (hw : Settling loser winner side w) (hd : deliver w d = some w') :
    Settling loser winner side w' ∧
      exchangeWeight winner side w' < exchangeWeight winner side w := by
  obtain ⟨packet, rest, hin, hin', hshelf, hshelf', hout, -⟩ := deliver_cases hd
  rcases Side.eq_or_eq_other side d with rfl | rfl
  · have hrest : ∀ p ∈ w'.inbox d, p = .noteItems [winner] ∨ ∃ entries, p = .ack entries := by
      intro p hp
      exact hw.inbox p (by rw [hin, ← hin']; exact List.mem_cons_of_mem _ hp)
    rcases hw.inbox packet (by rw [hin]; exact List.mem_cons_self ..) with rfl | ⟨entries, rfl⟩
    · obtain ⟨hholds, hanswers, hweight⟩ :=
        winner_arrives h hwins hw.holds (handleFrom_one_note (w.shelf d) winner d.other.id)
      refine ⟨⟨hshelf ▸ hholds, hshelf' ▸ hw.otherHolds, hrest, ?_⟩, ?_⟩
      · intro p hp
        rw [hout, List.mem_append] at hp
        rcases hp with hp | hp
        · exact hw.otherInbox p hp
        · exact Or.inr (hanswers p hp)
      · unfold exchangeWeight
        rw [hin, hin', hout, List.map_append, List.sum_append, List.map_cons, List.sum_cons]
        have : packetWeight winner false (.noteItems [winner]) = 3 := rfl
        omega
    · obtain ⟨hnotes, hnone⟩ := handleFrom_ack (w.shelf d) entries d.other.id
      refine ⟨⟨?_, hshelf' ▸ hw.otherHolds, hrest, ?_⟩, ?_⟩
      · rw [hshelf, hnotes]
        exact hw.holds
      · rw [hout, hnone, List.append_nil]
        exact hw.otherInbox
      · unfold exchangeWeight
        rw [hin, hin', hout, hnone, List.append_nil, List.map_cons, List.sum_cons]
        have : packetWeight winner false (.ack entries) = 1 := rfl
        omega
  · rw [Side.other_other] at hshelf hshelf' hout
    have hrest : ∀ p ∈ w'.inbox side.other,
        p = .noteItems [loser] ∨ p = .noteItems [winner] ∨ ∃ entries, p = .ack entries := by
      intro p hp
      exact hw.otherInbox p (by rw [hin, ← hin']; exact List.mem_cons_of_mem _ hp)
    have hnote : ∀ n, n = loser ∨ n = winner → packet = .noteItems [n] →
        Settling loser winner side w' ∧
          exchangeWeight winner side w' < exchangeWeight winner side w := by
      rintro n hn rfl
      obtain ⟨hholds, hanswers, hweight⟩ := arrives_at_holder h hloses hn hw.otherHolds
        (handleFrom_one_note (w.shelf side.other) n side.id)
      refine ⟨⟨hshelf' ▸ hw.holds, hshelf ▸ hholds, ?_, hrest⟩, ?_⟩
      · intro p hp
        rw [hout, List.mem_append] at hp
        rcases hp with hp | hp
        · exact hw.inbox p hp
        · exact hanswers p hp
      · unfold exchangeWeight
        rw [hin, hin', hout, List.map_append, List.sum_append, List.map_cons, List.sum_cons]
        omega
    rcases hw.otherInbox packet (by rw [hin]; exact List.mem_cons_self ..) with
      hp | hp | ⟨entries, rfl⟩
    · exact hnote loser (Or.inl rfl) hp
    · exact hnote winner (Or.inr rfl) hp
    · obtain ⟨hnotes, hnone⟩ := handleFrom_ack (w.shelf side.other) entries side.id
      refine ⟨⟨hshelf' ▸ hw.holds, ?_, ?_, hrest⟩, ?_⟩
      · rw [hshelf, hnotes]
        exact hw.otherHolds
      · rw [hout, hnone, List.append_nil]
        exact hw.inbox
      · unfold exchangeWeight
        rw [hin, hin', hout, hnone, List.append_nil, List.map_cons, List.sum_cons]
        have : packetWeight winner true (.ack entries) = 1 := rfl
        omega

/-- An exchange that settles stops. -/
theorem settling_stops (h : Siblings loser winner) (hwins : incomingWins loser winner = true)
    (hloses : incomingWins winner loser = false) (hw : Settling loser winner side w) :
    ∃ bound, ∀ sides w', Lib.runFrom deliver w sides = some w' → sides.length ≤ bound := by
  refine ⟨exchangeWeight winner side w, ?_⟩
  intro sides w' hrun
  have hlen := Lib.runFrom_length_le (exchangeWeight winner side)
    (fun w d w' hw hd => deliver_settling h hwins hloses d hw hd) hw hrun
  omega

/-- Siblings that are not tied stop answering each other. -/
theorem exchangeStops_of_not_tied (h : Siblings a b) (ht : ¬Tied a b) : ExchangeStops a b := by
  intro side w hw
  have hswap := incomingWins_swap h ht
  cases hwins : incomingWins a b with
  | true =>
    refine settling_stops h hwins (by simpa [hwins] using hswap) (?_ : Settling a b side w)
    exact {
      holds := Or.inl hw.holds
      otherHolds := h.id_eq ▸ hw.otherHolds
      inbox := fun p hp => Or.inl (hw.inbox p hp)
      otherInbox := fun p hp => Or.inl (hw.otherInbox p hp) }
  | false =>
    refine settling_stops h.symm (by simpa [hwins] using hswap) hwins
      (?_ : Settling b a side.other w)
    exact {
      holds := Or.inl hw.otherHolds
      otherHolds := by rw [Side.other_other]; exact h.id_eq ▸ hw.holds
      inbox := fun p hp => Or.inl (hw.otherInbox p hp)
      otherInbox := fun p hp => Or.inl (hw.inbox p (Side.other_other side ▸ hp)) }

/-- Two siblings are resolved alike on both sides, with an exchange that
stops, exactly when they are not tied. -/
theorem sibling_resolution_iff {a b : Note} (h : Siblings a b) :
    ResolveAlike a b ∧ ExchangeStops a b ↔ ¬Tied a b := by
  constructor
  · intro hgood ht
    exact not_resolveAlike_of_tied h ht hgood.1
  · intro ht
    exact ⟨resolveAlike_of_not_tied h ht, exchangeStops_of_not_tied h ht⟩

/-- A note of the list, renamed within one millisecond on either side. -/
def listTitled (title : String) (modified : Int) : Note where
  id := "n"
  title := title
  body := "milk"
  pinned := false
  created := 1
  modified := modified
  parent := 1
  ancestors := [1]
  deleted := false

theorem siblings_listTitled {t u : String} {m k : Int} (hm : m ≠ 1) (hk : k ≠ 1)
    (h : ¬(m = k ∧ t = u)) : Siblings (listTitled t m) (listTitled u k) where
  id_eq := rfl
  differ := by
    rintro ⟨hmk, hsame⟩
    exact h ⟨hmk, ((sameContent_iff _ _).mp hsame).1⟩
  left := by
    rw [← Bool.not_eq_true, names_iff]
    rintro (hparent | hmem)
    · exact hk hparent.symm
    · exact hk (List.mem_singleton.mp hmem)
  right := by
    rw [← Bool.not_eq_true, names_iff]
    rintro (hparent | hmem)
    · exact hm hparent.symm
    · exact hm (List.mem_singleton.mp hmem)

/-- Two titles given at different times. -/
theorem sibling_resolution_two_stamps :
    ResolveAlike (listTitled "Shop" 5) (listTitled "Market" 6) ∧
      ExchangeStops (listTitled "Shop" 5) (listTitled "Market" 6) :=
  (sibling_resolution_iff (siblings_listTitled (by decide) (by decide) (by decide))).mpr
    (by decide)

/-- Two titles given within one millisecond: the shelves do not agree. -/
theorem sibling_resolution_fails :
    Siblings (listTitled "Shop" 5) (listTitled "Market" 5) ∧
      ¬ResolveAlike (listTitled "Shop" 5) (listTitled "Market" 5) := by
  have h : Siblings (listTitled "Shop" 5) (listTitled "Market" 5) :=
    siblings_listTitled (by decide) (by decide) (by decide)
  exact ⟨h, not_resolveAlike_of_tied h (by decide)⟩

end DeskLink.Notes
