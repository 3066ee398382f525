import DeskLink.Proofs.Notes.Lineage

/-!
# `DeskLink.Proofs.Notes.OneSided`: a note edited on one side only

The note `x` was created on either side and is edited on one. `Tracks`
follows its versions: the one the other side holds, those on their way
there, and the one the editing side holds are in order, each recognised by
the next (`Follows`); those on their way back are recognised too.

An edit keeps that as long as the version it makes names every version of
`x` that is elsewhere. It does until it has to cut the list of ancestors
(`EditKeeps`); `one_sided_never_conflicts` is the run. The list is cut to
eight, and the marks remember one version held and one sent: a version the
other side took while the acknowledgement was lost is forgotten once a
later push is lost too (`one_sided_conflict`).
-/

set_option autoImplicit false

namespace DeskLink.Notes

/-- `b` is the version `a`, or a later one that names it. -/
def Follows (a b : Note) : Prop :=
  a = b ∨ (a.modified < b.modified ∧ b.names a.modified = true)

/-- The stamps a version names are earlier, and its list is newest first. -/
structure WellStamped (n : Note) : Prop where
  parent : n.parent < n.modified
  chain : n.chain.Pairwise (· > ·)

theorem WellStamped.below {n : Note} (h : WellStamped n) {m : Int} (hm : n.names m = true) :
    m < n.modified := by
  rw [names_iff] at hm
  rcases hm with rfl | hm
  · exact h.parent
  · exact (List.pairwise_cons.mp h.chain).1 m hm

/-- The versions of one note: `far` on the other side, `down` on their way
there, `near` on the side that edits, `up` on their way back. -/
structure Tracks (far : Option Note) (down : List Note) (near : Option Note)
    (up : List Note) : Prop where
  order : (far.toList ++ (down ++ near.toList)).Pairwise Follows
  back : ∀ c ∈ near, ∀ g ∈ up, Follows g c
  /-- Until the editing side has the note, only its first version is there. -/
  first : near = none → down = [] ∧ ∀ g ∈ up, far = some g
  stamped : ∀ v, v ∈ far ∨ v ∈ down ∨ v ∈ near ∨ v ∈ up → WellStamped v
  /-- A list that was never cut has them all. -/
  listed : ∀ c ∈ near, c.chain.length ≤ maxAncestors → ∀ g, g ∈ far ∨ g ∈ down ∨ g ∈ up →
    g.modified ∈ c.chain

namespace Tracks

variable {far near : Option Note} {down up sent : List Note} {n : Note}

theorem empty : Tracks none [] none [] := by
  refine ⟨List.Pairwise.nil, ?_, ?_, ?_, ?_⟩ <;> simp

/-- Versions on their way are lost. -/
theorem lose (h : Tracks far down near up) {down' up' : List Note} (hdown : down'.Sublist down)
    (hup : up' ⊆ up) : Tracks far down' near up' where
  order := h.order.sublist ((List.Sublist.refl _).append (hdown.append (List.Sublist.refl _)))
  back c hc g hg := h.back c hc g (hup hg)
  first hnone := by
    obtain ⟨hempty, hfirst⟩ := h.first hnone
    rw [hempty] at hdown
    exact ⟨List.sublist_nil.mp hdown, fun g hg => hfirst g (hup hg)⟩
  stamped v hv := h.stamped v (hv.imp id (Or.imp (fun hv => hdown.subset hv) (Or.imp id (fun hv => hup hv))))
  listed c hc hlen g hg :=
    h.listed c hc hlen g (hg.imp id (Or.imp (fun hg => hdown.subset hg) (fun hg => hup hg)))

/-- The next version on its way is what the other side holds, or follows
it. -/
theorem follows_next (h : Tracks far (n :: down) near up) {f : Note} (hf : far = some f) :
    Follows f n := by
  have horder := h.order
  rw [hf, Option.toList_some, List.singleton_append, List.pairwise_cons] at horder
  exact horder.1 n (by simp)

/-- The other side takes the next version. -/
theorem take (h : Tracks far (n :: down) near up) : Tracks (some n) down near up where
  order := by
    refine h.order.sublist ?_
    show (n :: (down ++ near.toList)).Sublist (far.toList ++ (n :: (down ++ near.toList)))
    exact List.sublist_append_right _ _
  back := h.back
  first hnone := by
    have hempty := (h.first hnone).1
    cases hempty
  stamped v hv := by
    refine h.stamped v ?_
    rcases hv with hv | hv | hv | hv
    · rw [Option.mem_some_iff] at hv
      exact Or.inr (Or.inl (hv ▸ List.mem_cons_self ..))
    · exact Or.inr (Or.inl (List.mem_cons_of_mem _ hv))
    · exact Or.inr (Or.inr (Or.inl hv))
    · exact Or.inr (Or.inr (Or.inr hv))
  listed c hc hlen g hg := by
    refine h.listed c hc hlen g ?_
    rcases hg with hg | hg | hg
    · rw [Option.mem_some_iff] at hg
      exact Or.inr (Or.inl (hg ▸ List.mem_cons_self ..))
    · exact Or.inr (Or.inl (List.mem_cons_of_mem _ hg))
    · exact Or.inr (Or.inr hg)

/-- The other side has the version already. -/
theorem same (h : Tracks far (n :: down) near up) : Tracks far down near up :=
  h.lose (List.sublist_cons_self _ _) (List.Subset.refl _)

/-- The editing side receives the first version. -/
theorem receive (h : Tracks far down none (n :: up)) : Tracks far down (some n) up := by
  obtain ⟨hdown, hfirst⟩ := h.first rfl
  subst hdown
  have hfar : far = some n := hfirst n (List.mem_cons_self ..)
  have hup : ∀ g ∈ up, g = n := by
    intro g hg
    have := hfirst g (List.mem_cons_of_mem _ hg)
    rw [hfar] at this
    exact (Option.some.inj this).symm
  subst hfar
  refine ⟨?_, ?_, by simp, ?_, ?_⟩
  · simp only [Option.toList_some, List.nil_append, List.singleton_append, List.pairwise_cons,
      List.mem_singleton, forall_eq, List.not_mem_nil, false_implies, implies_true,
      List.Pairwise.nil, and_true]
    exact Or.inl rfl
  · intro c hc g hg
    rw [Option.mem_some_iff] at hc
    exact Or.inl ((hup g hg).trans hc)
  · intro v hv
    refine h.stamped v ?_
    rcases hv with hv | hv | hv | hv
    · exact Or.inl hv
    · cases hv
    · exact Or.inl hv
    · exact Or.inr (Or.inr (Or.inr (List.mem_cons_of_mem _ hv)))
  · intro c hc _ g hg
    rw [Option.mem_some_iff] at hc
    subst hc
    have heq : g = n := by
      rcases hg with hg | hg | hg
      · rw [Option.mem_some_iff] at hg
        exact hg.symm
      · cases hg
      · exact hup g hg
    rw [heq]
    exact List.mem_cons_self ..

/-- The editing side sends what it holds. -/
theorem send (h : Tracks far down near up) (hsent : ∀ n ∈ sent, near = some n) :
    Tracks far (down ++ sent) near up := by
  cases near with
  | none =>
    have hempty : sent = [] := by
      cases sent with
      | nil => rfl
      | cons n rest => cases hsent n (List.mem_cons_self ..)
    rw [hempty, List.append_nil]
    exact h
  | some c =>
    have hsame : ∀ n ∈ sent, n = c := fun n hn => (Option.some.inj (hsent n hn)).symm
    refine ⟨?_, h.back, by simp, ?_, ?_⟩
    · -- Versions that are all `c` stand where `c` stood.
      have hlast : (sent ++ [c]).Pairwise Follows := by
        refine List.pairwise_of_forall_mem_list ?_
        intro a ha b hb
        have hc : ∀ n ∈ sent ++ [c], n = c := by
          intro n hn
          rcases List.mem_append.mp hn with hn | hn
          · exact hsame n hn
          · exact List.mem_singleton.mp hn
        exact Or.inl ((hc a ha).trans (hc b hb).symm)
      have horder := h.order
      rw [Option.toList_some, ← List.append_assoc, List.pairwise_append] at horder
      rw [Option.toList_some, List.append_assoc, ← List.append_assoc, List.pairwise_append]
      refine ⟨horder.1, hlast, ?_⟩
      intro a ha b hb
      have hb : b = c := by
        rcases List.mem_append.mp hb with hb | hb
        · exact hsame b hb
        · exact List.mem_singleton.mp hb
      rw [hb]
      exact horder.2.2 a ha c (List.mem_singleton_self c)
    · intro v hv
      refine h.stamped v ?_
      rcases hv with hv | hv | hv
      · exact Or.inl hv
      · rcases List.mem_append.mp hv with hv | hv
        · exact Or.inr (Or.inl hv)
        · exact Or.inr (Or.inr (Or.inl (hsent v hv)))
      · exact Or.inr (Or.inr hv)
    · intro c' hc hlen g hg
      rw [Option.mem_some_iff] at hc
      subst hc
      rcases hg with hg | hg | hg
      · exact h.listed c rfl hlen g (Or.inl hg)
      · rcases List.mem_append.mp hg with hg | hg
        · exact h.listed c rfl hlen g (Or.inr (Or.inl hg))
        · rw [hsame g hg]
          exact List.mem_cons_self ..
      · exact h.listed c rfl hlen g (Or.inr (Or.inr hg))

/-- The other side sends what it holds. -/
theorem sendBack (h : Tracks far down near up) (hsent : ∀ n ∈ sent, far = some n) :
    Tracks far down near (up ++ sent) where
  order := h.order
  back c hc g hg := by
    rcases List.mem_append.mp hg with hg | hg
    · exact h.back c hc g hg
    · have horder := h.order
      rw [hsent g hg, Option.toList_some, List.singleton_append, List.pairwise_cons] at horder
      rw [Option.mem_def] at hc
      exact horder.1 c (by simp [hc])
  first hnone := by
    obtain ⟨hempty, hfirst⟩ := h.first hnone
    refine ⟨hempty, ?_⟩
    intro g hg
    rcases List.mem_append.mp hg with hg | hg
    · exact hfirst g hg
    · exact hsent g hg
  stamped v hv := by
    refine h.stamped v ?_
    rcases hv with hv | hv | hv | hv
    · exact Or.inl hv
    · exact Or.inr (Or.inl hv)
    · exact Or.inr (Or.inr (Or.inl hv))
    · rcases List.mem_append.mp hv with hv | hv
      · exact Or.inr (Or.inr (Or.inr hv))
      · exact Or.inl (hsent v hv)
  listed c hc hlen g hg := by
    refine h.listed c hc hlen g ?_
    rcases hg with hg | hg | hg
    · exact Or.inl hg
    · exact Or.inr (Or.inl hg)
    · rcases List.mem_append.mp hg with hg | hg
      · exact Or.inr (Or.inr hg)
      · exact Or.inl (hsent g hg)

/-- The editing side makes a version that names every version elsewhere. -/
theorem edit {before after : Note} (h : Tracks far down (some before) up)
    (hlater : before.modified < after.modified)
    (hstamped : WellStamped after)
    (hnames : ∀ g, g ∈ far ∨ g ∈ down ∨ g ∈ up → after.names g.modified = true)
    (hlisted : after.chain.length ≤ maxAncestors → ∀ g, g ∈ far ∨ g ∈ down ∨ g ∈ up →
      g.modified ∈ after.chain) : Tracks far down (some after) up := by
  have horder := h.order
  rw [Option.toList_some, ← List.append_assoc, List.pairwise_append] at horder
  have hle : ∀ g, g ∈ far ∨ g ∈ down ∨ g ∈ up → g.modified ≤ before.modified := by
    intro g hg
    have hfollows : Follows g before := by
      rcases hg with hg | hg | hg
      · rw [Option.mem_def] at hg
        exact horder.2.2 g (by simp [hg]) before (List.mem_singleton_self _)
      · exact horder.2.2 g (List.mem_append_right _ hg) before (List.mem_singleton_self _)
      · exact h.back before rfl g hg
    rcases hfollows with rfl | ⟨hlt, -⟩
    · exact le_refl _
    · exact hlt.le
  have hfollows : ∀ g, g ∈ far ∨ g ∈ down ∨ g ∈ up → Follows g after := by
    intro g hg
    have := hle g hg
    exact Or.inr ⟨by omega, hnames g hg⟩
  refine ⟨?_, ?_, by simp, ?_, ?_⟩
  · rw [Option.toList_some, ← List.append_assoc, List.pairwise_append]
    refine ⟨horder.1, List.pairwise_singleton _ _, ?_⟩
    intro g hg b hb
    rw [List.mem_singleton.mp hb]
    refine hfollows g ?_
    rcases List.mem_append.mp hg with hg | hg
    · exact Or.inl (by simpa using hg)
    · exact Or.inr (Or.inl hg)
  · intro c hc g hg
    rw [Option.mem_some_iff] at hc
    subst hc
    exact hfollows g (Or.inr (Or.inr hg))
  · intro v hv
    rcases hv with hv | hv | hv | hv
    · exact h.stamped v (Or.inl hv)
    · exact h.stamped v (Or.inr (Or.inl hv))
    · rw [Option.mem_some_iff] at hv
      subst hv
      exact hstamped
    · exact h.stamped v (Or.inr (Or.inr (Or.inr hv)))
  · intro c hc hlen
    rw [Option.mem_some_iff] at hc
    subst hc
    exact hlisted hlen

end Tracks

/-! ### Cutting the list -/

/-- A list that is cut is cut to `maxAncestors`, and stays newest first. -/
theorem ancestorsAfter_spec {before : Note} (keep : List Int)
    (hsorted : before.chain.Pairwise (· > ·)) :
    (ancestorsAfter before keep).Pairwise (· > ·) ∧
      (maxAncestors < before.chain.length →
        (ancestorsAfter before keep).length = maxAncestors) := by
  unfold ancestorsAfter
  simp only
  split
  · rename_i hshort
    exact ⟨hsorted, fun hlong => absurd hlong (by omega)⟩
  · rename_i hlong
    generalize hkept : (before.chain.filter (keep.contains ·)).take maxAncestors = kept
    generalize hrest : before.chain.filter (fun m => !kept.contains m) = rest
    have hnodup : before.chain.Nodup := hsorted.imp (fun h => ne_of_gt h)
    have hsub : kept.Sublist before.chain := by
      rw [← hkept]
      exact (List.take_sublist _ _).trans List.filter_sublist
    have hrecent : (rest.take (maxAncestors - kept.length)).Sublist before.chain := by
      rw [← hrest]
      exact (List.take_sublist _ _).trans List.filter_sublist
    have hboth : (kept ++ rest.take (maxAncestors - kept.length)).Nodup := by
      rw [List.nodup_append]
      refine ⟨hnodup.sublist hsub, hnodup.sublist hrecent, ?_⟩
      intro a ha b hb hab
      have hout : (!kept.contains b) = true := by
        rw [← hrest] at hb
        exact (List.mem_filter.mp (List.mem_of_mem_take hb)).2
      rw [← hab] at hout
      simp [ha] at hout
    refine ⟨?_, ?_⟩
    · have hge := List.pairwise_insertionSort (· ≥ ·)
        (kept ++ rest.take (maxAncestors - kept.length))
      have hne := (List.perm_insertionSort (· ≥ ·)
        (kept ++ rest.take (maxAncestors - kept.length))).nodup_iff.mpr hboth
      exact (hge.and hne).imp (fun h => lt_of_le_of_ne h.1 h.2.symm)
    · intro _
      have hroom : kept.length ≤ maxAncestors := by
        rw [← hkept]
        exact List.length_take_le _ _
      have hin : (before.chain.filter (fun m => kept.contains m)).length ≤ kept.length := by
        refine (List.subperm_of_subset (hnodup.sublist List.filter_sublist) ?_).length_le
        intro a ha
        simpa using (List.mem_filter.mp ha).2
      have hcount := List.length_eq_length_filter_add (l := before.chain)
        (fun m => kept.contains m)
      rw [hrest] at hcount
      rw [List.length_insertionSort, List.length_append, List.length_take]
      omega

/-! ### One note on a shelf -/

section Shelf
variable {log : List Made} {peer x : String} {s : Shelf} {n : Note}

/-- The shelf holds no conflicted copy of `x`. -/
def NoCopies (x : String) (s : Shelf) : Prop := ∀ m, s.notes[copyId x m]? = none

/-- A merge touches the note it is of, and copies of it. -/
theorem mergeNoteFrom_other (h : ShelfTraced log peer s) (n : Note) {k : String} (hk : k ≠ n.id)
    (hcopy : ∀ m, k ≠ copyId n.id m) :
    (mergeNoteFrom s n peer).1.notes[k]? = s.notes[k]? := by
  have hcase := mergeNoteFrom_cases s n peer
  generalize mergeNoteFrom s n peer = r at hcase ⊢
  cases hcase with
  | absent hnone => rw [take_notes, getElem?_keyInsert, if_neg (Ne.symm hk)]
  | same mine hmine hmod hsame => rfl
  | newer mine hmine hnames => rw [take_notes, getElem?_keyInsert, if_neg (Ne.symm hk)]
  | older mine hmine hdiff hnames hnamed => rfl
  | sibling mine hmine hdiff hnames hnamed =>
    have hid := h.id_eq _ _ hmine
    rw [mergeSiblings_notes _ _ _ _ _ hmine hid, if_neg hk, if_neg]
    rintro ⟨-, hloser⟩
    have hloserId : (siblingLoser mine n).id = n.id := by
      unfold siblingLoser
      split
      · exact hid
      · rfl
    rw [copyOf_id, hloserId] at hloser
    exact hcopy _ hloser

/-- A version that follows what is held is taken. -/
theorem mergeNoteFrom_follows (hfollows : ∀ mine, s.notes[n.id]? = some mine → Follows mine n)
    (peer k : String) :
    (mergeNoteFrom s n peer).1.notes[k]? = if n.id = k then some n else s.notes[k]? := by
  have hcase := mergeNoteFrom_cases s n peer
  generalize mergeNoteFrom s n peer = r at hcase ⊢
  cases hcase with
  | absent hnone => rw [take_notes, getElem?_keyInsert]
  | same mine hmine hmod hsame =>
    rcases hfollows mine hmine with rfl | ⟨hlt, -⟩
    · split
      · rename_i hk
        exact hk ▸ hmine
      · rfl
    · omega
  | newer mine hmine hnames => rw [take_notes, getElem?_keyInsert]
  | older mine hmine hdiff hnames hnamed =>
    rcases hfollows mine hmine with rfl | ⟨-, hnames'⟩
    · exact absurd ⟨rfl, (sameContent_iff _ _).mpr ⟨rfl, rfl, rfl, rfl⟩⟩ hdiff
    · rw [hnames] at hnames'
      cases hnames'
  | sibling mine hmine hdiff hnames hnamed =>
    rcases hfollows mine hmine with rfl | ⟨-, hnames'⟩
    · exact absurd ⟨rfl, (sameContent_iff _ _).mpr ⟨rfl, rfl, rfl, rfl⟩⟩ hdiff
    · rw [hnames] at hnames'
      cases hnames'

/-- A version that what is held follows changes no note. -/
theorem mergeNoteFrom_followed {mine : Note} (hmine : s.notes[n.id]? = some mine)
    (hfollows : Follows n mine) (hstamped : WellStamped n) (peer : String) :
    (mergeNoteFrom s n peer).1.notes = s.notes := by
  have hcase := mergeNoteFrom_cases s n peer
  generalize mergeNoteFrom s n peer = r at hcase ⊢
  -- An older version does not name the one held.
  have hback : n.names mine.modified = true → n = mine := by
    intro hnames
    rcases hfollows with rfl | ⟨hlt, -⟩
    · rfl
    · have := hstamped.below hnames
      omega
  cases hcase with
  | absent hnone =>
    rw [hmine] at hnone
    cases hnone
  | same mine' hmine' hmod hsame => rfl
  | newer mine' hmine' hnames =>
    rw [hmine] at hmine'
    cases hmine'
    have := hback hnames
    subst this
    have := hstamped.below hnames
    omega
  | older mine' hmine' hdiff hnames hnamed => rfl
  | sibling mine' hmine' hdiff hnames hnamed =>
    rw [hmine] at hmine'
    cases hmine'
    rcases hfollows with rfl | ⟨-, hnames'⟩
    · exact absurd ⟨rfl, (sameContent_iff _ _).mpr ⟨rfl, rfl, rfl, rfl⟩⟩ hdiff
    · rw [hnamed] at hnames'
      cases hnames'

theorem takeNote_shelf (peer : String) (st : ItemsState) (n : Note) :
    (takeNote peer st n).shelf = st.shelf ∨
      (takeNote peer st n).shelf = (mergeNoteFrom st.shelf n peer).1 := by
  unfold takeNote
  split
  · exact Or.inl rfl
  · split
    · exact Or.inl rfl
    · right
      split <;> rename_i hcase <;> rw [hcase]

/-- The versions of `x` among `notes`. -/
def versionsOf (x : String) (notes : List Note) : List Note := notes.filter (·.id == x)

theorem versionsOf_append (x : String) (a b : List Note) :
    versionsOf x (a ++ b) = versionsOf x a ++ versionsOf x b := List.filter_append ..

theorem mem_versionsOf {notes : List Note} : n ∈ versionsOf x notes ↔ n ∈ notes ∧ n.id = x := by
  simp [versionsOf]

section Take
variable {near far : Option Note} {down up rest items : List Note} {st : ItemsState} {n : Note}

/-- A note other than `x` leaves `x` and its copies alone. -/
theorem takeNote_elsewhere (hx : '~' ∉ x.toList) (hs : ShelfTraced log peer st.shelf)
    (hne : n.id ≠ x) (hn : ∀ m, n.id ≠ copyId x m) (hno : NoCopies x st.shelf) :
    NoCopies x (takeNote peer st n).shelf ∧
      (takeNote peer st n).shelf.notes[x]? = st.shelf.notes[x]? := by
  rcases takeNote_shelf peer st n with heq | heq
  · rw [heq]
    exact ⟨hno, rfl⟩
  · rw [heq]
    refine ⟨?_, ?_⟩
    · intro m
      rw [mergeNoteFrom_other hs n (Ne.symm (hn m))]
      · exact hno m
      · intro k hk
        exact hne (copyId_inj hk).1.symm
    · refine mergeNoteFrom_other hs n (Ne.symm hne) ?_
      intro m hk
      rw [hk] at hx
      exact hx (tilde_mem_copyId _ _)

/-- The other side reads one note of a packet. -/
theorem takeNote_far (hx : '~' ∉ x.toList) (hs : ShelfTraced log peer st.shelf)
    (hn : ∀ m, n.id ≠ copyId x m) (hno : NoCopies x st.shelf)
    (h : Tracks st.shelf.notes[x]? (versionsOf x (n :: items) ++ rest) near up) :
    NoCopies x (takeNote peer st n).shelf ∧
      Tracks (takeNote peer st n).shelf.notes[x]? (versionsOf x items ++ rest) near up := by
  by_cases hid : n.id = x
  · have hcons : versionsOf x (n :: items) = n :: versionsOf x items := by simp [versionsOf, hid]
    rw [hcons, List.cons_append] at h
    rcases takeNote_shelf peer st n with heq | heq
    · rw [heq]
      exact ⟨hno, h.same⟩
    · have hfollows : ∀ mine, st.shelf.notes[n.id]? = some mine → Follows mine n := by
        intro mine hmine
        exact h.follows_next (hid ▸ hmine)
      have hnotes := mergeNoteFrom_follows hfollows peer
      rw [heq]
      refine ⟨?_, ?_⟩
      · intro m
        rw [hnotes, if_neg (hn m)]
        exact hno m
      · rw [hnotes, if_pos hid]
        exact h.take
  · have hskip : versionsOf x (n :: items) = versionsOf x items := by simp [versionsOf, hid]
    rw [hskip] at h
    obtain ⟨hno', hsame⟩ := takeNote_elsewhere hx hs hid hn hno
    exact ⟨hno', hsame ▸ h⟩

/-- The editing side reads one note of a packet. -/
theorem takeNote_near (hx : '~' ∉ x.toList) (hs : ShelfTraced log peer st.shelf)
    (hn : ∀ m, n.id ≠ copyId x m) (hno : NoCopies x st.shelf)
    (h : Tracks far down st.shelf.notes[x]? (versionsOf x (n :: items) ++ rest)) :
    NoCopies x (takeNote peer st n).shelf ∧
      Tracks far down (takeNote peer st n).shelf.notes[x]? (versionsOf x items ++ rest) := by
  by_cases hid : n.id = x
  · have hcons : versionsOf x (n :: items) = n :: versionsOf x items := by simp [versionsOf, hid]
    rw [hcons, List.cons_append] at h
    have hskip : Tracks far down st.shelf.notes[x]? (versionsOf x items ++ rest) :=
      h.lose (List.Sublist.refl _) (List.subset_cons_self _ _)
    rcases takeNote_shelf peer st n with heq | heq
    · rw [heq]
      exact ⟨hno, hskip⟩
    · rw [heq]
      cases hmine : st.shelf.notes[x]? with
      | none =>
        have hfollows : ∀ mine, st.shelf.notes[n.id]? = some mine → Follows mine n := by
          intro mine hmine'
          rw [hid, hmine] at hmine'
          cases hmine'
        have hnotes := mergeNoteFrom_follows hfollows peer
        refine ⟨?_, ?_⟩
        · intro m
          rw [hnotes, if_neg (hn m)]
          exact hno m
        · rw [hnotes, if_pos hid]
          rw [hmine] at h
          exact h.receive
      | some c =>
        rw [hmine] at h hskip
        have hnotes := mergeNoteFrom_followed (hid ▸ hmine : st.shelf.notes[n.id]? = some c)
          (h.back c rfl n (List.mem_cons_self ..))
          (h.stamped n (Or.inr (Or.inr (Or.inr (List.mem_cons_self ..))))) peer
        rw [hnotes, hmine]
        refine ⟨?_, hskip⟩
        intro m
        rw [hnotes]
        exact hno m
  · have hskip : versionsOf x (n :: items) = versionsOf x items := by simp [versionsOf, hid]
    rw [hskip] at h
    obtain ⟨hno', hsame⟩ := takeNote_elsewhere hx hs hid hn hno
    exact ⟨hno', hsame ▸ h⟩

/-- What the notes of a packet must be for the loops over them. -/
structure Readable (log : List Made) (x : String) (items : List Note) : Prop where
  traced : ∀ n ∈ items, Traced log n
  noCopy : ∀ n ∈ items, ∀ m, n.id ≠ copyId x m

theorem Readable.tail (h : Readable log x (n :: items)) : Readable log x items :=
  ⟨fun m hm => h.traced m (List.mem_cons_of_mem _ hm),
    fun m hm => h.noCopy m (List.mem_cons_of_mem _ hm)⟩

theorem takeNote_traced (hpeer : peer ≠ "") (hs : ShelfTraced log peer st.shelf)
    (hn : Traced log n) : ShelfTraced log peer (takeNote peer st n).shelf := by
  rcases takeNote_shelf peer st n with heq | heq
  · rw [heq]
    exact hs
  · rw [heq]
    exact hs.merge hpeer hn

/-- The loop over a packet: what each note of it keeps, the whole of it keeps. -/
theorem takeNotes_keep {T : Option Note → List Note → Prop} (hpeer : peer ≠ "")
    (hone : ∀ {st : ItemsState} {n : Note} {items : List Note}, ShelfTraced log peer st.shelf →
      (∀ m, n.id ≠ copyId x m) → NoCopies x st.shelf →
        T st.shelf.notes[x]? (versionsOf x (n :: items) ++ rest) →
          NoCopies x (takeNote peer st n).shelf ∧
            T (takeNote peer st n).shelf.notes[x]? (versionsOf x items ++ rest)) :
    ∀ {items : List Note} (st : ItemsState), Readable log x items →
      ShelfTraced log peer st.shelf → NoCopies x st.shelf →
      T st.shelf.notes[x]? (versionsOf x items ++ rest) →
      NoCopies x (items.foldl (takeNote peer) st).shelf ∧
        T (items.foldl (takeNote peer) st).shelf.notes[x]? rest := by
  intro items
  induction items with
  | nil =>
    intro st _ _ hno h
    exact ⟨hno, h⟩
  | cons n items ih =>
    intro st hread hs hno h
    obtain ⟨hno', h'⟩ := hone hs (hread.noCopy n (List.mem_cons_self ..)) hno h
    exact ih _ hread.tail (takeNote_traced hpeer hs (hread.traced n (List.mem_cons_self ..))) hno' h'

end Take

end Shelf

/-! ### One note in the world -/

/-- The notes in `packets`. -/
def notesIn (packets : List Packet) : List Note := packets.flatMap Packet.notes

/-- The versions of `x` on their way to `side`, in order. -/
def flight (w : World) (side : Side) (x : String) : List Note :=
  versionsOf x (notesIn (w.inbox side))

/-- The note `x` is edited on `side`: its versions in the world, and no
copy of it anywhere. -/
structure OneSided (side : Side) (x : String) (w : World) : Prop where
  tracks : Tracks (w.shelf side.other).notes[x]? (flight w side.other x)
    (w.shelf side).notes[x]? (flight w side x)
  noCopies : ∀ t, NoCopies x (w.shelf t)
  noCopyOnWay : ∀ t, ∀ packet ∈ w.inbox t, ∀ n ∈ packet.notes, ∀ m, n.id ≠ copyId x m

/-- The versions of `x` that are elsewhere when `side` edits it. -/
def elsewhere (w : World) (side : Side) (x : String) : List Note :=
  (w.shelf side.other).notes[x]?.toList ++ flight w side.other x ++ flight w side x

/-- An edit of `x` is typed over the stored version, the clock is not at
its end, and when the list of ancestors is cut, every version of `x` that
is elsewhere is named by the next: as its parent, or in what is kept. -/
def EditKeeps (x : String) (w : World) : Action → Prop
  | .edit side id loaded _ _ =>
    id = x → ∀ before ∈ (w.shelf side).notes[x]?,
      overtaken before loaded = false ∧ before.modified < i64Max ∧
      (maxAncestors < before.chain.length → ∀ g ∈ elsewhere w side x,
        g.modified = (w.shelf side).baseOf x ∨
          g.modified ∈ ancestorsAfter before ((w.shelf side).mustKeep x))
  | .create .. | .push .. | .sendIndex .. | .deliver .. | .lose .. => True

instance (x : String) (w : World) (a : Action) : Decidable (EditKeeps x w a) :=
  match a with
  | .edit side id loaded _ _ =>
    inferInstanceAs (Decidable (id = x → ∀ before ∈ (w.shelf side).notes[x]?,
      overtaken before loaded = false ∧ before.modified < i64Max ∧
      (maxAncestors < before.chain.length → ∀ g ∈ elsewhere w side x,
        g.modified = (w.shelf side).baseOf x ∨
          g.modified ∈ ancestorsAfter before ((w.shelf side).mustKeep x))))
  | .create .. | .push .. | .sendIndex .. | .deliver .. | .lose .. => .isTrue trivial

/-- The action edits `x`, on a side other than `side`. -/
def editsAcross (side : Side) (x : String) : Action → Bool
  | .edit t id _ _ _ => id == x && t != side
  | .create .. | .push .. | .sendIndex .. | .deliver .. | .lose .. => false

section World
variable {w : World} {side t : Side} {x id : String} {s s' : Shelf} {now : Int}
variable {packets rest : List Packet} {packet : Packet} {before : Note} {c : Content}
variable {loaded : Option Int}

theorem notesIn_append (a b : List Packet) : notesIn (a ++ b) = notesIn a ++ notesIn b :=
  List.flatMap_append

theorem oneSided_empty : OneSided side x World.empty where
  tracks := Tracks.empty
  noCopies _ _ := Std.ExtTreeMap.getElem?_empty
  noCopyOnWay _ _ hp := nomatch hp

/-- Packets of one side with what it holds of `x` leave. -/
theorem OneSided.post (h : OneSided side x w)
    (hids : ∀ (k : String) (n : Note), (w.shelf t).notes[k]? = some n → n.id = k)
    (hpackets : ∀ packet ∈ packets, ∀ n ∈ packet.notes, ∃ k : String,
      (w.shelf t).notes[k]? = some n) : OneSided side x (w.post t packets) := by
  have hsent : ∀ n ∈ versionsOf x (notesIn packets), (w.shelf t).notes[x]? = some n := by
    intro n hn
    obtain ⟨hn, hid⟩ := mem_versionsOf.mp hn
    obtain ⟨packet, hp, hn⟩ := List.mem_flatMap.mp hn
    obtain ⟨k, hk⟩ := hpackets packet hp n hn
    rw [← hid, hids k n hk]
    exact hk
  have hflight : flight (w.post t packets) t.other x
      = flight w t.other x ++ versionsOf x (notesIn packets) := by
    simp only [flight, World.post, World.setInbox, Function.update_self, notesIn_append,
      versionsOf_append]
  have hkeep : flight (w.post t packets) t x = flight w t x := by
    simp only [flight, World.post, World.setInbox, Function.update_of_ne (Side.ne_other t)]
  refine ⟨?_, h.noCopies, ?_⟩
  · rcases Side.eq_or_eq_other side t with rfl | rfl
    · show Tracks (w.shelf t.other).notes[x]? (flight (w.post t packets) t.other x)
        (w.shelf t).notes[x]? (flight (w.post t packets) t x)
      rw [hflight, hkeep]
      exact h.tracks.send hsent
    · rw [Side.other_other] at hflight
      show Tracks (w.shelf side.other).notes[x]? (flight (w.post side.other packets) side.other x)
        (w.shelf side).notes[x]? (flight (w.post side.other packets) side x)
      rw [hflight, hkeep]
      exact h.tracks.sendBack hsent
  · intro u packet hp n hn m
    rcases @posted_cases w t packets (· ∈ packets) (fun _ hp => hp) u packet hp
      with hold | hnew
    · exact h.noCopyOnWay u packet hold n hn m
    · obtain ⟨k, hk⟩ := hpackets packet hnew n hn
      intro heq
      have hno := h.noCopies t m
      rw [← heq, hids k n hk] at hno
      rw [hno] at hk
      cases hk

/-- The shelf of one side changes away from `x`. -/
theorem OneSided.setShelf (h : OneSided side x w) (hx : s.notes[x]? = (w.shelf t).notes[x]?)
    (hno : NoCopies x s) : OneSided side x (w.setShelf t s) := by
  have hlook : ∀ u, ((w.setShelf t s).shelf u).notes[x]? = (w.shelf u).notes[x]? := by
    intro u
    by_cases hu : u = t
    · subst hu
      simpa [World.setShelf] using hx
    · simp [World.setShelf, hu]
  refine ⟨?_, ?_, h.noCopyOnWay⟩
  · rw [hlook, hlook]
    exact h.tracks
  · intro u
    by_cases hu : u = t
    · subst hu
      simpa [World.setShelf] using hno
    · simpa [World.setShelf, hu] using h.noCopies u

theorem OneSided.record (h : OneSided side x w) (made : Made) : OneSided side x (w.record made) :=
  ⟨h.tracks, h.noCopies, h.noCopyOnWay⟩

/-- A packet is lost. -/
theorem OneSided.lose (h : OneSided side x w) (t : Side) (hsub : packets.Sublist (w.inbox t)) :
    OneSided side x (w.setInbox t packets) := by
  have hflight : ∀ u, (flight (w.setInbox t packets) u x).Sublist (flight w u x) := by
    intro u
    by_cases hu : u = t
    · subst hu
      simp only [flight, World.setInbox, Function.update_self]
      exact (hsub.flatMap _).filter _
    · simp only [flight, World.setInbox, Function.update_of_ne hu]
      exact List.Sublist.refl _
  refine ⟨?_, h.noCopies, ?_⟩
  · exact h.tracks.lose (hflight side.other) (hflight side).subset
  · intro u packet hp
    refine h.noCopyOnWay u packet ?_
    by_cases hu : u = t
    · subst hu
      simp only [World.setInbox, Function.update_self] at hp
      exact hsub.subset hp
    · simpa [World.setInbox, hu] using hp

theorem noCopies_congr (h : s.notes = s'.notes) (hno : NoCopies x s') : NoCopies x s := by
  intro m
  rw [h]
  exact hno m

/-- What is read of the first packet on its way, and what stays. -/
theorem flight_cons (hinbox : w.inbox t = packet :: rest) :
    (versionsOf x (packet.notes.take maxItemsPerPacket) ++ versionsOf x (notesIn rest)).Sublist
      (flight w t x) := by
  have hnotes : notesIn (w.inbox t) = packet.notes ++ notesIn rest := by
    rw [hinbox, notesIn, List.flatMap_cons]
    rfl
  rw [flight, hnotes, versionsOf_append]
  exact ((List.take_sublist _ _).filter _).append (List.Sublist.refl _)

/-- The first packet on its way to `t` is read there. -/
theorem OneSided.read (h : OneSided side x w) (htraced : WorldTraced w) (hx : '~' ∉ x.toList)
    (hinbox : w.inbox t = packet :: rest) : OneSided side x ((w.setInbox t rest).setShelf t
      (handleFrom (w.shelf t) packet t.other.id).1) := by
  have hmem : packet ∈ w.inbox t := hinbox ▸ List.mem_cons_self ..
  have hread : Readable w.log x (packet.notes.take maxItemsPerPacket) :=
    ⟨fun n hn => htraced.inbox t packet hmem n (List.mem_of_mem_take hn),
      fun n hn => h.noCopyOnWay t packet hmem n (List.mem_of_mem_take hn)⟩
  have hnotes := handleFrom_notes (w.shelf t) packet t.other.id
  have hsub := flight_cons (x := x) hinbox
  -- The shelf and the inbox of each side afterwards.
  have hshelf : ∀ u, u ≠ t → (((w.setInbox t rest).setShelf t
      (handleFrom (w.shelf t) packet t.other.id).1).shelf u) = w.shelf u := by
    intro u hu
    simp [World.setShelf, World.setInbox, hu]
  have hself : (((w.setInbox t rest).setShelf t
      (handleFrom (w.shelf t) packet t.other.id).1).shelf t)
        = (handleFrom (w.shelf t) packet t.other.id).1 := by
    simp [World.setShelf]
  have hkeep : ∀ u, u ≠ t → flight ((w.setInbox t rest).setShelf t
      (handleFrom (w.shelf t) packet t.other.id).1) u x = flight w u x := by
    intro u hu
    simp [flight, World.setShelf, World.setInbox, hu]
  have hrest : flight ((w.setInbox t rest).setShelf t
      (handleFrom (w.shelf t) packet t.other.id).1) t x = versionsOf x (notesIn rest) := by
    simp [flight, World.setShelf, World.setInbox]
  have hinboxes : ∀ u, ∀ p ∈ ((w.setInbox t rest).setShelf t
      (handleFrom (w.shelf t) packet t.other.id).1).inbox u, p ∈ w.inbox u := by
    intro u p hp
    by_cases hu : u = t
    · subst hu
      simp only [World.setShelf, World.setInbox, Function.update_self] at hp
      exact hinbox ▸ List.mem_cons_of_mem _ hp
    · simpa [World.setShelf, World.setInbox, hu] using hp
  have hnoCopies : NoCopies x ((packet.notes.take maxItemsPerPacket).foldl (takeNote t.other.id)
      { shelf := w.shelf t }).shelf → ∀ u, NoCopies x (((w.setInbox t rest).setShelf t
        (handleFrom (w.shelf t) packet t.other.id).1).shelf u) := by
    intro hno u
    by_cases hu : u = t
    · subst hu
      rw [hself]
      exact noCopies_congr hnotes hno
    · rw [hshelf u hu]
      exact h.noCopies u
  rcases Side.eq_or_eq_other side t with rfl | rfl
  · have htracks : Tracks (w.shelf t.other).notes[x]? (flight w t.other x)
        (w.shelf t).notes[x]?
        (versionsOf x (packet.notes.take maxItemsPerPacket) ++ versionsOf x (notesIn rest)) :=
      h.tracks.lose (List.Sublist.refl _) hsub.subset
    obtain ⟨hno, hread'⟩ := takeNotes_keep (T := fun held way => Tracks _ _ held way)
      (Side.id_ne_empty t.other) (takeNote_near hx) { shelf := w.shelf t } hread (htraced.shelf t) (h.noCopies t) htracks
    refine ⟨?_, hnoCopies hno, fun u p hp => h.noCopyOnWay u p (hinboxes u p hp)⟩
    rw [hshelf _ (Side.other_ne t), hself, hkeep _ (Side.other_ne t), hrest, hnotes]
    exact hread'
  · have htracks : Tracks (w.shelf side.other).notes[x]?
        (versionsOf x (packet.notes.take maxItemsPerPacket) ++ versionsOf x (notesIn rest))
        (w.shelf side).notes[x]? (flight w side x) :=
      h.tracks.lose hsub (List.Subset.refl _)
    obtain ⟨hno, hread'⟩ := takeNotes_keep (T := fun held way => Tracks held way _ _)
      (Side.id_ne_empty side.other.other) (takeNote_far hx) { shelf := w.shelf side.other } hread
      (htraced.shelf side.other) (h.noCopies side.other) htracks
    refine ⟨?_, hnoCopies hno, fun u p hp => h.noCopyOnWay u p (hinboxes u p hp)⟩
    rw [hself, hshelf _ (Side.ne_other side), hkeep _ (Side.ne_other side), hrest, hnotes]
    exact hread'

/-- The version an edit of `x` makes follows every version elsewhere. -/
theorem OneSided.edit (h : OneSided side x w) (htraced : WorldTraced w)
    (hsaved : Saved (w.shelf side) x loaded now before c s)
    (hover : overtaken before loaded = false) (hmax : before.modified < i64Max)
    (hkeeps : maxAncestors < before.chain.length → ∀ g ∈ elsewhere w side x,
      g.modified = (w.shelf side).baseOf x ∨
        g.modified ∈ ancestorsAfter before ((w.shelf side).mustKeep x)) :
    OneSided side x (w.setShelf side s) := by
  have hshelf := htraced.shelf side
  have hid := hshelf.id_eq x before hsaved.stored
  have hs : s = (w.shelf side).put x (editedNote before ((w.shelf side).baseOf x)
      ((w.shelf side).mustKeep x) c now) := by
    rcases hsaved.shelf with hs | ⟨hover', -⟩
    · exact hs
    · rw [hover] at hover'
      cases hover'
  generalize hafter : editedNote before ((w.shelf side).baseOf x) ((w.shelf side).mustKeep x) c
    now = after at hs
  have hstamp : after.modified = max now (i64SaturatingSucc before.modified) := by
    rw [← hafter]
    rfl
  have hparent : after.parent = (w.shelf side).baseOf x := by
    rw [← hafter]
    rfl
  have hancestors : after.ancestors = ancestorsAfter before ((w.shelf side).mustKeep x) := by
    rw [← hafter]
    rfl
  have hlater : before.modified < after.modified := by
    rw [hstamp, i64SaturatingSucc]
    omega
  have htracks := h.tracks
  rw [hsaved.stored] at htracks
  have hbefore : WellStamped before := htracks.stamped before (Or.inr (Or.inr (Or.inl rfl)))
  have hbeforeTraced := hshelf.notes x before hsaved.stored
  obtain ⟨hsorted, hcut⟩ := ancestorsAfter_spec ((w.shelf side).mustKeep x) hbefore.chain
  -- The parent is a stamp the stored version comes from.
  have hbase : (w.shelf side).baseOf x ≤ before.modified := by
    rcases hshelf.baseOf hsaved.stored with hzero | ⟨v, -, hv, hcomes⟩
    · have := (hbeforeTraced.version.bounded htraced.log).1
      omega
    · rw [← hv]
      exact hcomes.le_modified htraced.log
  have hstamped : WellStamped after := by
    refine ⟨?_, ?_⟩
    · rw [hparent]
      omega
    · show (after.modified :: after.ancestors).Pairwise (· > ·)
      rw [List.pairwise_cons, hancestors]
      refine ⟨?_, hsorted⟩
      intro m hm
      rcases List.mem_cons.mp (mem_ancestorsAfter hm) with rfl | hm
      · exact hlater
      · have := hbefore.below ((names_iff _ _).mpr (Or.inr hm))
        omega
  have hshort : before.chain.length ≤ maxAncestors → after.ancestors = before.chain := by
    intro hlen
    rw [hancestors, ancestorsAfter]
    exact if_pos hlen
  have helse : ∀ g, g ∈ (w.shelf side.other).notes[x]? ∨ g ∈ flight w side.other x ∨
      g ∈ flight w side x → g ∈ elsewhere w side x := by
    intro g hg
    simp only [elsewhere, List.mem_append, Option.mem_toList]
    rcases hg with hg | hg | hg
    · exact Or.inl (Or.inl hg)
    · exact Or.inl (Or.inr hg)
    · exact Or.inr hg
  have hedit : Tracks (w.shelf side.other).notes[x]? (flight w side.other x) (some after)
      (flight w side x) := by
    refine htracks.edit hlater hstamped ?_ ?_
    · intro g hg
      rw [names_iff, hparent]
      rcases Nat.lt_or_ge maxAncestors before.chain.length with hlong | hlen
      · rw [hancestors]
        exact (hkeeps hlong g (helse g hg)).imp Eq.symm id
      · right
        rw [hshort hlen]
        exact htracks.listed before rfl hlen g hg
    · intro hlen g hg
      rcases Nat.lt_or_ge maxAncestors before.chain.length with hlong | hlen'
      · -- A list that was cut is full.
        have hfull := hcut hlong
        rw [← hancestors] at hfull
        simp only [Note.chain, List.length_cons] at hlen
        omega
      · refine List.mem_cons_of_mem _ ?_
        rw [hshort hlen']
        exact htracks.listed before rfl hlen' g hg
  have hself : (w.setShelf side s).shelf side = s := by simp [World.setShelf]
  have hother : (w.setShelf side s).shelf side.other = w.shelf side.other := by
    simp [World.setShelf]
  refine ⟨?_, ?_, h.noCopyOnWay⟩
  · rw [hself, hother, hs, put_notes, getElem?_keyInsert, if_pos rfl]
    exact hedit
  · intro u
    rcases Side.eq_or_eq_other side u with rfl | rfl
    · intro m
      rw [hself, hs, put_notes, getElem?_keyInsert, if_neg (Ne.symm (copyId_ne x m))]
      exact h.noCopies u m
    · rw [hother]
      exact h.noCopies side.other

/-- No version of a fresh id is anywhere. -/
theorem absent_of_fresh (htraced : WorldTraced w) (hfresh : freshId w id = true) :
    (∀ t, (w.shelf t).notes[id]? = none) ∧ ∀ t, flight w t id = [] := by
  simp only [freshId, Bool.and_eq_true, Bool.not_eq_true', List.contains_eq_mem,
    decide_eq_false_iff_not, List.any_eq_false, beq_iff_eq] at hfresh
  have hno : ∀ n, Traced w.log n → n.id ≠ id := by
    intro n hn hid
    obtain ⟨m, hm, rfl⟩ := hn.version.made_of_no_tilde (hid ▸ hfresh.1)
    exact hfresh.2 m hm hid
  refine ⟨?_, ?_⟩
  · intro t
    cases hn : (w.shelf t).notes[id]? with
    | none => rfl
    | some n => exact absurd ((htraced.shelf t).id_eq id n hn) (hno n ((htraced.shelf t).notes id n hn))
  · intro t
    rw [List.eq_nil_iff_forall_not_mem]
    intro n hn
    obtain ⟨hn, hid⟩ := mem_versionsOf.mp hn
    obtain ⟨packet, hp, hn⟩ := List.mem_flatMap.mp hn
    exact hno n (htraced.inbox t packet hp n hn) hid

/-- The note is created, on either side. -/
theorem OneSided.create (h : OneSided side x w) (htraced : WorldTraced w)
    (hfresh : freshId w x = true) (t : Side) (hnow : 0 < now) (body : String) :
    OneSided side x (w.setShelf t ((w.shelf t).put x (createdNote x now body))) := by
  obtain ⟨hshelves, hflights⟩ := absent_of_fresh htraced hfresh
  have hstamped : WellStamped (createdNote x now body) :=
    ⟨hnow, List.pairwise_singleton _ _⟩
  refine ⟨?_, ?_, h.noCopyOnWay⟩
  · have hflight : ∀ u, flight (w.setShelf t ((w.shelf t).put x (createdNote x now body))) u x = [] :=
      fun u => hflights u
    rw [hflight, hflight]
    rcases Side.eq_or_eq_other side t with rfl | rfl
    · simp only [World.setShelf, Function.update_self, Function.update_of_ne (Side.other_ne t),
        put_notes, getElem?_keyInsert, if_pos, hshelves]
      refine ⟨?_, ?_, by simp, ?_, ?_⟩
      · exact List.pairwise_singleton _ _
      · simp
      · intro v hv
        simp only [Option.mem_def, reduceCtorEq, List.not_mem_nil, Option.some.injEq, false_or,
          or_false] at hv
        exact hv ▸ hstamped
      · simp
    · simp only [World.setShelf, Function.update_self, Function.update_of_ne (Side.ne_other side),
        put_notes, getElem?_keyInsert, if_pos, hshelves]
      refine ⟨?_, ?_, by simp, ?_, ?_⟩
      · exact List.pairwise_singleton _ _
      · simp
      · intro v hv
        simp only [Option.mem_def, reduceCtorEq, List.not_mem_nil, Option.some.injEq,
          or_false] at hv
        exact hv ▸ hstamped
      · simp
  · intro u m
    by_cases hu : u = t
    · subst hu
      simp only [World.setShelf, Function.update_self, put_notes, getElem?_keyInsert,
        if_neg (Ne.symm (copyId_ne x m))]
      exact h.noCopies u m
    · simp only [World.setShelf, Function.update_of_ne hu]
      exact h.noCopies u m

/-- An edit of another note leaves `x` and its copies alone. -/
theorem saved_elsewhere (hsaved : Saved s id loaded now before c s') (hid : before.id = id)
    (hne : id ≠ x) (hx : '~' ∉ x.toList) (hno : NoCopies x s) :
    s'.notes[x]? = s.notes[x]? ∧ NoCopies x s' := by
  have hstored := hsaved.stored
  have hcopy : ∀ m, id ≠ copyId x m := by
    intro m heq
    have := hno m
    rw [← heq, hstored] at this
    cases this
  have hnotCopy : copyId before.id before.modified ≠ x := by
    intro heq
    rw [← heq] at hx
    exact hx (tilde_mem_copyId _ _)
  have hotherCopy : ∀ m, copyId before.id before.modified ≠ copyId x m := by
    intro m heq
    exact hne (hid ▸ (copyId_inj heq).1)
  rcases hsaved.shelf with rfl | ⟨-, -, rfl⟩
  · refine ⟨?_, ?_⟩
    · rw [put_notes, getElem?_keyInsert, if_neg hne]
    · intro m
      rw [put_notes, getElem?_keyInsert, if_neg (hcopy m)]
      exact hno m
  · refine ⟨?_, ?_⟩
    · rw [keepCopy_notes, put_notes, getElem?_keyInsert, copyOf_id, if_neg hnotCopy,
        getElem?_keyInsert, if_neg hne]
    · intro m
      rw [keepCopy_notes, put_notes, getElem?_keyInsert, copyOf_id, if_neg (hotherCopy m),
        getElem?_keyInsert, if_neg (hcopy m)]
      exact hno m

/-- Every step keeps the versions of `x` in order. -/
theorem step_oneSided {w' : World} {a : Action} (hx : '~' ∉ x.toList) (h : OneSided side x w)
    (htraced : WorldTraced w) (hside : editsAcross side x a = false) (hkeeps : EditKeeps x w a)
    (hstep : step w a = some w') : OneSided side x w' := by
  have htraced' := step_traced htraced hstep
  cases step_cases hstep with
  | create t id now body hfresh hclock =>
    simp only [clockReads, Bool.and_eq_true, decide_eq_true_eq] at hclock
    apply OneSided.record
    by_cases hid : id = x
    · subst hid
      exact h.create htraced hfresh t hclock.1 body
    · have htilde : '~' ∉ id.toList := by
        simp only [freshId, Bool.and_eq_true, Bool.not_eq_true', List.contains_eq_mem,
          decide_eq_false_iff_not] at hfresh
        exact hfresh.1
      refine h.setShelf ?_ ?_
      · rw [put_notes, getElem?_keyInsert, if_neg hid]
      · intro m
        rw [put_notes, getElem?_keyInsert, if_neg]
        · exact h.noCopies t m
        · intro heq
          rw [heq] at htilde
          exact htilde (tilde_mem_copyId x m)
  | edit t id loaded change now before c s after hsaved hclock hafter =>
    apply OneSided.record
    by_cases hid : id = x
    · subst hid
      have ht : t = side := by
        simpa [editsAcross] using hside
      subst ht
      obtain ⟨hover, hmax, hcut⟩ := hkeeps rfl before hsaved.stored
      exact h.edit htraced hsaved hover hmax hcut
    · obtain ⟨hsame, hno⟩ := saved_elsewhere hsaved
        ((htraced.shelf t).id_eq id before hsaved.stored) hid hx (h.noCopies t)
      exact h.setShelf hsame hno
  | push t ids hpush =>
    have hnotes := sentTo_notes (w.shelf t) .notes ids t.other.id
    have hsent : OneSided side x
        (w.setShelf t (sentTo (w.shelf t) .notes ids t.other.id)) := by
      refine h.setShelf (by rw [hnotes]) (noCopies_congr hnotes (h.noCopies t))
    have hself : (w.setShelf t (sentTo (w.shelf t) .notes ids t.other.id)).shelf t
        = sentTo (w.shelf t) .notes ids t.other.id := by
      simp [World.setShelf]
    refine hsent.post ?_ ?_
    · rw [hself, hnotes]
      exact (htraced.shelf t).id_eq
    · intro packet hp n hn
      obtain ⟨k, -, hk⟩ := mem_itemsPackets hp hn
      rw [hself, hnotes]
      exact ⟨k, hk⟩
  | sendIndex t =>
    refine h.post (htraced.shelf t).id_eq ?_
    intro packet hp n hn
    obtain ⟨items, -, rfl⟩ := List.mem_map.mp hp
    cases hn
  | deliver t packet rest hinbox =>
    have hread := h.read htraced hx hinbox
    have hself : ((w.setInbox t rest).setShelf t
        (handleFrom (w.shelf t) packet t.other.id).1).shelf t
          = (handleFrom (w.shelf t) packet t.other.id).1 := by
      simp [World.setShelf]
    refine hread.post ?_ ?_
    · have hids := (htraced'.shelf t).id_eq
      simpa [World.post, World.setInbox, World.setShelf] using hids
    · intro answer ha n hn
      rw [hself]
      exact handleFrom_answers ha hn
  | lose t place hplace => exact h.lose t (List.eraseIdx_sublist _ _)

end World

variable {side : Side} {w : World} {x : String} {incoming mine : Note} {st : ItemsState}

/-! ### Runs -/

theorem run_oneSided {actions : List Action} (hx : '~' ∉ x.toList)
    (hside : ∀ a ∈ actions, editsAcross side x a = false)
    (hmeet : Lib.StepsMeet step (EditKeeps x) World.empty actions)
    (hrun : runWorld actions = some w) : WorldTraced w ∧ OneSided side x w := by
  refine Lib.runFrom_invariant_of_steps (I := fun w => WorldTraced w ∧ OneSided side x w) ?_
    ⟨worldTraced_empty, oneSided_empty⟩ (hmeet.and_forall hside) hrun
  rintro s a s' ⟨htraced, hs⟩ ⟨hacross, hkeeps⟩ hstep
  exact ⟨step_traced htraced hstep, step_oneSided hx hs htraced hacross hkeeps hstep⟩

/-- In the middle of a packet: what was read of it, and what is next. -/
theorem OneSided.middle {t : Side} (h : OneSided side x w) (htraced : WorldTraced w)
    (hmid : MidPacket w t st incoming) (hid : incoming.id = x) :
    ∃ done rest, st = done.foldl (takeNote t.other.id) { shelf := w.shelf t } ∧
      Readable w.log x done ∧
      (versionsOf x done ++ (incoming :: rest)).Sublist (flight w t x) := by
  obtain ⟨items, packets, done, next, hinbox, hitems, hst⟩ := hmid
  have hmem : Packet.noteItems items ∈ w.inbox t := hinbox ▸ List.mem_cons_self ..
  have hsub := flight_cons (x := x) hinbox
  have hnotes : (Packet.noteItems items).notes = items := rfl
  have hdone : ∀ n ∈ done, n ∈ items := by
    intro n hn
    refine List.mem_of_mem_take (i := maxItemsPerPacket) ?_
    rw [hitems]
    exact List.mem_append_left _ hn
  have hcons : versionsOf x (incoming :: next) = incoming :: versionsOf x next := by
    simp [versionsOf, hid]
  rw [hnotes, hitems, versionsOf_append, List.append_assoc, hcons, List.cons_append] at hsub
  exact ⟨done, _, hst, ⟨fun n hn => htraced.inbox _ _ hmem n (hdone n hn),
    fun n hn => h.noCopyOnWay _ _ hmem n (hdone n hn)⟩, hsub⟩

/-- In the middle of a packet for the other side, the next version of `x`
is what is held there or names it. -/
theorem OneSided.far_recognised (h : OneSided side x w) (htraced : WorldTraced w)
    (hx : '~' ∉ x.toList) (hmid : MidPacket w side.other st incoming) (hid : incoming.id = x)
    (hmine : st.shelf.notes[x]? = some mine) : Follows mine incoming := by
  obtain ⟨done, rest, rfl, hread, hsub⟩ := h.middle htraced hmid hid
  have htracks := (takeNotes_keep (T := fun held way => Tracks held way _ _)
    (Side.id_ne_empty side.other.other) (takeNote_far hx) { shelf := w.shelf side.other } hread
    (htraced.shelf side.other) (h.noCopies side.other)
    (h.tracks.lose hsub (List.Subset.refl _))).2
  exact htracks.follows_next hmine

/-- In the middle of a packet for the editing side, what is held there is
the next version of `x` or names it. -/
theorem OneSided.near_recognises (h : OneSided side x w) (htraced : WorldTraced w)
    (hx : '~' ∉ x.toList) (hmid : MidPacket w side st incoming) (hid : incoming.id = x)
    (hmine : st.shelf.notes[x]? = some mine) : Follows incoming mine := by
  obtain ⟨done, rest, rfl, hread, hsub⟩ := h.middle htraced hmid hid
  have htracks := (takeNotes_keep (T := fun held way => Tracks _ _ held way)
    (Side.id_ne_empty side.other) (takeNote_near hx) { shelf := w.shelf side } hread
    (htraced.shelf side) (h.noCopies side) (h.tracks.lose (List.Sublist.refl _) hsub.subset)).2
  exact htracks.back mine hmine incoming (List.mem_cons_self ..)

/-- A note edited on one side only, each edit keeping the versions that
are elsewhere among the stamps it names: no copy of it is made, and each
version that arrives is recognised. -/
theorem one_sided_never_conflicts (x : String) (side : Side) (actions : List Action) (w : World)
    (hx : '~' ∉ x.toList) (hside : ∀ a ∈ actions, editsAcross side x a = false)
    (hmeet : Lib.StepsMeet step (EditKeeps x) World.empty actions)
    (hrun : runWorld actions = some w) :
    (∀ t m, (w.shelf t).notes[copyId x m]? = none) ∧
    (∀ st incoming mine, MidPacket w side.other st incoming → incoming.id = x →
      st.shelf.notes[x]? = some mine → mine = incoming ∨ incoming.names mine.modified = true) ∧
    (∀ st incoming mine, MidPacket w side st incoming → incoming.id = x →
      st.shelf.notes[x]? = some mine → incoming = mine ∨ mine.names incoming.modified = true) := by
  obtain ⟨htraced, h⟩ := run_oneSided hx hside hmeet hrun
  refine ⟨h.noCopies, ?_, ?_⟩
  · intro st incoming mine hmid hid hmine
    exact (h.far_recognised htraced hx hmid hid hmine).imp id And.right
  · intro st incoming mine hmid hid hmine
    exact (h.near_recognises htraced hx hmid hid hmine).imp id And.right

/-! ### A version forgotten -/

/-- `count` edits on the desk, the first at the clock reading `first`. -/
def edits (first : Int) (count : Nat) : List Action :=
  (List.range count).map (fun k =>
    .edit .desk "n" none (typed (toString k ++ toString first)) (first + k))

/-- The phone takes the note and its acknowledgement is lost; the next
push is lost too. Eight more edits are made before the next push. -/
def forgottenVersion : List Action :=
  [Action.create .desk "n" 1 "milk", .push .desk ["n"], .deliver .phone, .lose .desk 0]
    ++ edits 2 1 ++ [Action.push .desk ["n"], .lose .phone 0] ++ edits 3 8
    ++ [Action.push .desk ["n"], .deliver .phone]

/-- The phone no longer recognises it, and makes a copy of what it had. -/
theorem one_sided_conflict : ¬ ∀ (x : String) (side : Side) (actions : List Action) (w : World),
    (∀ a ∈ actions, editsAcross side x a = false) → runWorld actions = some w →
      ∀ t m, (w.shelf t).notes[copyId x m]? = none := by
  intro h
  have hcopy : (runWorld forgottenVersion).map
      (fun w => (w.shelf .phone).notes[copyId "n" 1]?.isSome) = some true := by
    decide +kernel
  obtain ⟨w, hrun, hthere⟩ := Option.map_eq_some_iff.mp hcopy
  rw [h "n" .desk forgottenVersion w (by decide +kernel) hrun .phone 1] at hthere
  cases hthere

/-- The acknowledgement is lost and the desk goes on: the version sent is
kept however many edits follow. -/
def rememberedVersion : List Action :=
  [Action.create .desk "n" 1 "milk", .push .desk ["n"], .deliver .phone, .lose .desk 0]
    ++ edits 2 10 ++ [Action.push .desk ["n"], .deliver .phone]

/-- No copy is made, as the versions sent are named. -/
theorem one_sided_remembered : ∃ w, runWorld rememberedVersion = some w ∧
    ∀ t m, (w.shelf t).notes[copyId "n" m]? = none := by
  have hends : (runWorld rememberedVersion).isSome = true := by decide +kernel
  obtain ⟨w, hrun⟩ := Option.isSome_iff_exists.mp hends
  refine ⟨w, hrun, (one_sided_never_conflicts "n" .desk rememberedVersion w ?_ ?_ ?_ hrun).1⟩
  · decide +kernel
  · decide +kernel
  · decide +kernel

end DeskLink.Notes
