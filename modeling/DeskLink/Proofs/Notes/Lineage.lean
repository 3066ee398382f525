import DeskLink.Lib.Text
import DeskLink.Proofs.Notes.Steps

/-!
# `DeskLink.Proofs.Notes.Lineage`: where a version comes from

`ComesFrom ok log v w`: `w` was made from `v` by saves of `log` that meet
`ok`, each of the version the last one made, and by copying. `Traced` says
of a version that every stamp it names, as its parent or an ancestor, is
the stamp of a version it comes from.

* `step_traced`: every step keeps every version in the world traced, on
  the shelves and on the way.
* `ComesFrom.of_stamp`: with unique stamps, the version a stamp leads to
  is the one the shelf holds.
* `no_silent_loss`: a merge that replaces a version and makes no copy
  loses nothing.
-/

set_option autoImplicit false

namespace DeskLink.Notes

variable {m : Int} {log log' : List Made} {v n : Note} {peer id p : String} {s : Shelf}
variable {peers : KeyMap Int}

/-! ### Ids of copies -/

theorem tilde_notMem_toString (m : Int) : '~' ∉ (toString m).toList := by
  intro h
  rcases Lib.mem_toString_int h with h | h
  · exact absurd h (by decide)
  · exact absurd h (by decide)

theorem toList_copyId (id : String) (m : Int) :
    (copyId id m).toList = id.toList ++ '~' :: (toString m).toList := by
  simp [copyId, String.toList_append]

theorem tilde_mem_copyId (id : String) (m : Int) : '~' ∈ (copyId id m).toList := by
  rw [toList_copyId]
  exact List.mem_append_right _ (List.mem_cons_self ..)

theorem copyId_inj {i j : String} {k : Int} (h : copyId i m = copyId j k) : i = j ∧ m = k := by
  have hlist := congrArg String.toList h
  rw [toList_copyId, toList_copyId] at hlist
  obtain ⟨hi, hm⟩ :=
    Lib.append_cons_inj (tilde_notMem_toString m) (tilde_notMem_toString k) hlist
  exact ⟨String.toList_inj.mp hi, Lib.toString_int_inj (String.toList_inj.mp hm)⟩

/-! ### Versions and where they come from -/

/-- A version a person made, or the conflicted copy of a version. -/
inductive Version (log : List Made) : Note → Prop
  | made {m : Made} : m ∈ log → Version log m.note
  | copy {v : Note} : Version log v → Version log v.copyOf

/-- No two versions of one id have the same stamp. -/
def UniqueStamps (log : List Made) : Prop :=
  ∀ v w, Version log v → Version log w → v.id = w.id → v.modified = w.modified → v = w

/-- The person typed over the version the save replaced (or that was a
deletion). -/
def Made.typedOver : Made → Bool
  | .created .. => true
  | .saved _ before loaded _ _ => !overtaken before loaded

/-- The save replaced the version typed over, or left a copy of what it
replaced on the shelf. -/
def Made.keepsText : Made → Bool
  | .created .. => true
  | .saved _ before loaded _ kept => !overtaken before loaded || kept

/-- `w` was made from `v` by saves that are `ok`, and by copying. -/
inductive ComesFrom (ok : Made → Bool) (log : List Made) (v : Note) : Note → Prop
  | refl : ComesFrom ok log v v
  | saved {side : Side} {before after : Note} {loaded : Option Int} {kept : Bool} :
      ComesFrom ok log v before → .saved side before loaded after kept ∈ log →
      ok (.saved side before loaded after kept) = true → ComesFrom ok log v after
  | copied {u : Note} : ComesFrom ok log v u → ComesFrom ok log v u.copyOf

theorem Version.mono (hsub : log ⊆ log') (h : Version log v) : Version log' v := by
  induction h with
  | made hm => exact .made (hsub hm)
  | copy _ ih => exact .copy ih

theorem ComesFrom.mono {ok : Made → Bool} (hsub : log ⊆ log') {w : Note}
    (h : ComesFrom ok log v w) : ComesFrom ok log' v w := by
  induction h with
  | refl => exact .refl
  | saved _ hm hok ih => exact .saved ih (hsub hm) hok
  | copied _ ih => exact .copied ih

/-- A version whose id has no `~` is one a person made. -/
theorem Version.made_of_no_tilde (h : Version log v) (hid : '~' ∉ v.id.toList) :
    ∃ m ∈ log, v = m.note := by
  cases h with
  | made hm => exact ⟨_, hm, rfl⟩
  | copy _ => exact absurd (tilde_mem_copyId _ _) hid

/-- With unique stamps among what people made, and no person's version of
a copy, stamps are unique among the copies too. -/
theorem uniqueStamps_of_made (htilde : ∀ m ∈ log, '~' ∉ m.note.id.toList)
    (hunique : ∀ m ∈ log, ∀ k ∈ log, m.note.id = k.note.id → m.note.modified = k.note.modified →
      m.note = k.note) : UniqueStamps log := by
  intro v w hv
  induction hv generalizing w with
  | @made m hm =>
    intro hw hid hmod
    obtain ⟨k, hk, rfl⟩ := hw.made_of_no_tilde (hid ▸ htilde m hm)
    exact hunique m hm k hk hid hmod
  | @copy v hv ih =>
    intro hw hid hmod
    cases hw with
    | @made k hk =>
      have htilde' := tilde_mem_copyId v.id v.modified
      rw [show copyId v.id v.modified = k.note.id from hid] at htilde'
      exact absurd htilde' (htilde k hk)
    | @copy w hw =>
      obtain ⟨hid', hmod'⟩ := copyId_inj hid
      rw [ih w hw hid' hmod']

/-! ### Traced versions -/

/-- The stamp `m` is none, or of a version that `n` comes from. -/
def Source (log : List Made) (n : Note) (m : Int) : Prop :=
  m = 0 ∨ ∃ v, Version log v ∧ v.modified = m ∧ ComesFrom Made.keepsText log v n

structure Traced (log : List Made) (n : Note) : Prop where
  version : Version log n
  named : ∀ m, n.names m = true → Source log n m

theorem Source.mono (hsub : log ⊆ log') (h : Source log n m) : Source log' n m := by
  refine h.imp id ?_
  rintro ⟨v, hv, hm, hcomes⟩
  exact ⟨v, hv.mono hsub, hm, hcomes.mono hsub⟩

theorem Traced.mono (hsub : log ⊆ log') (h : Traced log n) : Traced log' n :=
  ⟨h.version.mono hsub, fun m hm => (h.named m hm).mono hsub⟩

/-- A version's own stamp, and those it names. -/
theorem Traced.chain (h : Traced log n) (hm : m ∈ n.chain) : Source log n m := by
  rcases List.mem_cons.mp hm with rfl | hm
  · exact Or.inr ⟨n, h.version, rfl, .refl⟩
  · exact h.named m ((names_iff n m).mpr (Or.inr hm))

/-- What the copy of a version names, the version comes from. -/
theorem Traced.copyOf (h : Traced log n) : Traced log n.copyOf := by
  refine ⟨.copy h.version, ?_⟩
  intro m hm
  have hchain : m ∈ n.chain := by
    rw [names_iff] at hm
    rcases hm with hm | hm
    · exact List.mem_cons.mpr (Or.inl hm.symm)
    · exact List.mem_cons_of_mem _ hm
  refine (h.chain hchain).imp id ?_
  rintro ⟨v, hv, hmod, hcomes⟩
  exact ⟨v, hv, hmod, .copied hcomes⟩

/-- A shelf of traced versions; its marks are stamps they come from. -/
structure ShelfTraced (log : List Made) (peer : String) (s : Shelf) : Prop where
  id_eq : ∀ (k : String) (n : Note), s.notes[k]? = some n → n.id = k
  notes : ∀ (k : String) (n : Note), s.notes[k]? = some n → Traced log n
  synced : ∀ (k : String) (m : Int), s.synced[k]? = some m →
    ∃ n, s.notes[k]? = some n ∧ Source log n m
  held : ∀ (k : String) (peers : KeyMap Int), s.held[k]? = some peers →
    ∀ (p : String) (m : Int), peers[p]? = some m →
      p = peer ∧ ∃ n, s.notes[k]? = some n ∧ Source log n m

theorem ShelfTraced.mono (hsub : log ⊆ log') (h : ShelfTraced log peer s) :
    ShelfTraced log' peer s where
  id_eq := h.id_eq
  notes k n hn := (h.notes k n hn).mono hsub
  synced k m hm := by
    obtain ⟨n, hn, hsource⟩ := h.synced k m hm
    exact ⟨n, hn, hsource.mono hsub⟩
  held k peers hpeers p m hm := by
    obtain ⟨hp, n, hn, hsource⟩ := h.held k peers hpeers p m hm
    exact ⟨hp, n, hn, hsource.mono hsub⟩

/-! ### Marks -/

theorem evictPeers_some (fuel : Nat) (h : (evictPeers fuel peers)[p]? = some m) :
    peers[p]? = some m := by
  induction fuel generalizing peers with
  | zero => exact h
  | succ fuel ih =>
    unfold evictPeers at h
    split at h
    · split at h
      · have hrest := ih h
        rw [getElem?_keyErase] at hrest
        split at hrest
        · cases hrest
        · exact hrest
      · exact h
    · exact h

/-- What is marked after `record_peer`: the new mark, or an old one of
another phone or note. -/
theorem recordPeer_some {marks : Marks} {k : String} {v : Int}
    (hk : (recordPeer marks id peer v)[k]? = some peers) (hp : peers[p]? = some m) :
    (k = id ∧ p = peer ∧ m = v) ∨
      ((k = id → p ≠ peer) ∧ ∃ old, marks[k]? = some old ∧ old[p]? = some m) ∨
      (peer = "" ∧ marks[k]? = some peers) := by
  unfold recordPeer at hk
  split at hk
  · rename_i hpeer
    exact Or.inr (Or.inr ⟨hpeer, hk⟩)
  · simp only [getElem?_keyInsert] at hk
    split at hk
    · rename_i hid
      subst hid
      rw [← Option.some.inj hk] at hp
      have hlook := evictPeers_some _ hp
      rw [getElem?_keyInsert] at hlook
      split at hlook
      · rename_i hpeer
        exact Or.inl ⟨rfl, hpeer.symm, (Option.some.inj hlook).symm⟩
      · rename_i hpeer
        right; left
        refine ⟨fun _ => Ne.symm hpeer, ?_⟩
        rw [Std.ExtTreeMap.getD_eq_getD_getElem?] at hlook
        cases hold : marks[id]? with
        | none =>
          rw [hold] at hlook
          simp at hlook
        | some old =>
          rw [hold] at hlook
          exact ⟨old, rfl, hlook⟩
    · rename_i hid
      exact Or.inr (Or.inl ⟨fun h => absurd h.symm hid, peers, hk, hp⟩)

section Marks
variable {log : List Made} {peer id : String} {s : Shelf} {n : Note} {v : Int}

/-- Marking a stamp the stored version comes from. -/
theorem ShelfTraced.recordHeld (h : ShelfTraced log peer s) (hpeer : peer ≠ "")
    (hn : s.notes[id]? = some n) (hv : Source log n v) :
    ShelfTraced log peer (s.recordHeld id peer v) where
  id_eq := h.id_eq
  notes := h.notes
  synced := h.synced
  held k peers hk p m hp := by
    rcases recordPeer_some hk hp with ⟨rfl, rfl, rfl⟩ | ⟨-, old, hold, hm⟩ | ⟨hempty, -⟩
    · exact ⟨rfl, n, hn, hv⟩
    · exact h.held k old hold p m hm
    · exact absurd hempty hpeer

theorem ShelfTraced.recordSent (h : ShelfTraced log peer s) (id : String) (v : Int) :
    ShelfTraced log peer (s.recordSent id peer v) :=
  ⟨h.id_eq, h.notes, h.synced, h.held⟩

theorem ShelfTraced.insertSynced (h : ShelfTraced log peer s) (hn : s.notes[id]? = some n)
    (hv : Source log n v) : ShelfTraced log peer { s with synced := s.synced.insert id v } where
  id_eq := h.id_eq
  notes := h.notes
  held := h.held
  synced k m hm := by
    rw [getElem?_keyInsert] at hm
    split at hm
    · rename_i hid
      subst hid
      rw [← Option.some.inj hm]
      exact ⟨n, hn, hv⟩
    · exact h.synced k m hm

/-- A version is put in the place of one that it comes from, if there is one. -/
theorem ShelfTraced.put (h : ShelfTraced log peer s) {n : Note} (hn : Traced log n)
    (hcomes : ∀ before, s.notes[n.id]? = some before → ∀ m, Source log before m → Source log n m) :
    ShelfTraced log peer (s.put n.id n) := by
  -- What a mark says of a version, it says of the one in its place.
  have hsource : ∀ (k : String) (m : Int),
      (∃ z, s.notes[k]? = some z ∧ Source log z m) →
        ∃ z, (s.put n.id n).notes[k]? = some z ∧ Source log z m := by
    rintro k m ⟨z, hz, hfrom⟩
    rw [put_notes, getElem?_keyInsert]
    by_cases hid : n.id = k
    · subst hid
      exact ⟨n, if_pos rfl, hcomes z hz m hfrom⟩
    · exact ⟨z, by rw [if_neg hid, hz], hfrom⟩
  have hnotes : ∀ (k : String) (z : Note), (s.put n.id n).notes[k]? = some z →
      (z = n ∧ n.id = k) ∨ s.notes[k]? = some z := by
    intro k z hz
    rw [put_notes, getElem?_keyInsert] at hz
    split at hz
    · rename_i hid
      exact .inl ⟨(Option.some.inj hz).symm, hid⟩
    · exact .inr hz
  exact {
    id_eq := fun k z hz => (hnotes k z hz).elim (fun hnew => hnew.1 ▸ hnew.2) (h.id_eq k z)
    notes := fun k z hz => (hnotes k z hz).elim (fun hnew => hnew.1 ▸ hn) (h.notes k z)
    synced := fun k m hm => hsource k m (h.synced k m hm)
    held := fun k peers hk p m hm =>
      ⟨(h.held k peers hk p m hm).1, hsource k m (h.held k peers hk p m hm).2⟩ }

/-- The incoming version is stored, and its marks with it. -/
theorem ShelfTraced.take (h : ShelfTraced log peer s) (hpeer : peer ≠ "") (hn : Traced log n) :
    ShelfTraced log peer (s.take n peer) := by
  have hself : Source log n n.modified := Or.inr ⟨n, hn.version, rfl, .refl⟩
  refine ⟨?_, ?_, ?_, ?_⟩
  · intro k z hz
    rw [take_notes, getElem?_keyInsert] at hz
    split at hz
    · rename_i hid
      rw [← Option.some.inj hz, hid]
    · exact h.id_eq k z hz
  · intro k z hz
    rw [take_notes, getElem?_keyInsert] at hz
    split at hz
    · rw [← Option.some.inj hz]
      exact hn
    · exact h.notes k z hz
  · intro k m hm
    have hm' : (s.synced.insert n.id n.modified)[k]? = some m := hm
    rw [take_notes, getElem?_keyInsert]
    rw [getElem?_keyInsert] at hm'
    split at hm'
    · rename_i hk
      rw [if_pos hk, ← Option.some.inj hm']
      exact ⟨n, rfl, hself⟩
    · rename_i hk
      rw [if_neg hk]
      exact h.synced k m hm'
  · intro k peers hk p m hp
    have hk' : (recordPeer s.held n.id peer n.modified)[k]? = some peers := hk
    rw [take_notes, getElem?_keyInsert]
    rcases recordPeer_some hk' hp with ⟨rfl, rfl, rfl⟩ | ⟨hother, old, hold, hm⟩ | ⟨hempty, -⟩
    · exact ⟨rfl, n, if_pos rfl, hself⟩
    · obtain ⟨rfl, z, hz, hsource⟩ := h.held k old hold p m hm
      have hne : n.id ≠ k := fun heq => hother heq.symm rfl
      exact ⟨rfl, z, by rw [if_neg hne, hz], hsource⟩
    · exact absurd hempty hpeer

theorem ShelfTraced.keepCopy (h : ShelfTraced log peer s) {loser : Note} (hn : Traced log loser)
    (hnew : s.notes[loser.copyOf.id]? = none) : ShelfTraced log peer (s.keepCopy loser) := by
  have hcopy := hn.copyOf
  have hput := h.put hcopy (fun z hz => by rw [hnew] at hz; cases hz)
  have hself : Source log loser.copyOf loser.copyOf.modified :=
    Or.inr ⟨_, hcopy.version, rfl, .refl⟩
  refine hput.insertSynced (n := loser.copyOf) ?_ hself
  rw [put_notes, getElem?_keyInsert, if_pos rfl]

theorem ShelfTraced.acknowledge (h : ShelfTraced log peer s) (hpeer : peer ≠ "") (id : String)
    (m : Int) : ShelfTraced log peer (acknowledge s id m peer).1 := by
  unfold Notes.acknowledge
  split
  · exact h
  · rename_i n hn
    split
    · exact h
    · rename_i place hplace
      have hchain : m ∈ n.chain := by
        have hany : n.chain.any (· == m) = true := by
          rw [← List.findIdx?_isSome, hplace]
          rfl
        simpa using hany
      have hsource := (h.notes id n hn).chain hchain
      have hsynced : ShelfTraced log peer
          (if isBefore place (positionIn n.chain s.synced[id]?) = true then
            { s with synced := s.synced.insert id m } else s) := by
        split
        · exact h.insertSynced hn hsource
        · exact h
      simp only
      split
      · refine hsynced.recordHeld hpeer (n := n) ?_ hsource
        split <;> exact hn
      · exact hsynced

/-- A merge keeps a shelf traced. -/
theorem ShelfTraced.merge (h : ShelfTraced log peer s) (hpeer : peer ≠ "") (hn : Traced log n) :
    ShelfTraced log peer (mergeNoteFrom s n peer).1 := by
  have hcase := mergeNoteFrom_cases s n peer
  generalize mergeNoteFrom s n peer = r at hcase ⊢
  cases hcase with
  | absent hnone => exact h.take hpeer hn
  | same mine hmine hmod hsame =>
    have hid := h.id_eq _ _ hmine
    have hself : Source log mine mine.modified :=
      Or.inr ⟨mine, (h.notes _ _ hmine).version, rfl, .refl⟩
    exact (h.insertSynced (hid ▸ hmine) hself).recordHeld hpeer (hid ▸ hmine) hself
  | newer mine hmine hnames => exact h.take hpeer hn
  | older mine hmine hdiff hnames hnamed =>
    have hid := h.id_eq _ _ hmine
    exact h.recordHeld hpeer (hid ▸ hmine) ((h.notes _ _ hmine).named _ hnamed)
  | sibling mine hmine hdiff hnames hnamed =>
    have hid := h.id_eq _ _ hmine
    have hmineTraced := h.notes _ _ hmine
    rw [mergeSiblings_eq]
    cases hwins : incomingWins mine n <;> cases hcopy : makesCopy s mine n
    · exact h
    · -- Ours stays, and the incoming version is kept as a copy.
      have hnew : s.notes[n.copyOf.id]? = none := by
        rw [makesCopy, siblingLoser, hwins, Bool.and_eq_true, not_contains_iff] at hcopy
        exact hcopy.2
      have hkeep := h.keepCopy hn hnew
      have hstored : (s.keepCopy n).notes[mine.id]? = some mine := by
        rw [keepCopy_notes, getElem?_keyInsert, if_neg (by rw [hid]; exact copyId_ne _ _), hid]
        exact hmine
      have hself : Source log mine mine.modified := Or.inr ⟨mine, hmineTraced.version, rfl, .refl⟩
      have hput := hkeep.put (n := mine) hmineTraced
        (fun z hz => by rw [hstored] at hz; cases hz; exact fun _ h => h)
      refine hput.insertSynced (n := mine) ?_ hself
      rw [put_notes, getElem?_keyInsert, if_pos rfl]
    · exact h.take hpeer hn
    · -- The incoming version wins, and ours is kept as a copy.
      have hnew : s.notes[mine.copyOf.id]? = none := by
        rw [makesCopy, siblingLoser, hwins, Bool.and_eq_true, not_contains_iff] at hcopy
        exact hcopy.2
      exact (h.keepCopy hmineTraced hnew).take hpeer hn

end Marks

variable {before : Note} {side : Side}
variable {keep : List Int} {c : Content} {loaded : Option Int} {now : Int}

/-! ### Edits -/

theorem mem_ancestorsAfter (h : m ∈ ancestorsAfter before keep) : m ∈ before.chain := by
  unfold ancestorsAfter at h
  simp only at h
  split at h
  · exact h
  · rw [List.mem_insertionSort, List.mem_append] at h
    rcases h with h | h
    · exact List.mem_of_mem_filter (List.mem_of_mem_take h)
    · exact List.mem_of_mem_filter (List.mem_of_mem_take h)

/-- The parent of the next edit is a stamp the stored version comes from. -/
theorem ShelfTraced.baseOf (h : ShelfTraced log peer s) (hn : s.notes[id]? = some n) :
    Source log n (s.baseOf id) := by
  have hsynced : Source log n ((s.synced[id]?).getD 0) := by
    cases hm : s.synced[id]? with
    | none => exact Or.inl rfl
    | some m =>
      obtain ⟨z, hz, hsource⟩ := h.synced id m hm
      rw [hn] at hz
      cases hz
      exact hsource
  unfold Shelf.baseOf
  cases hheld : s.held[id]? with
  | none => exact hsynced
  | some peers =>
    simp only [Option.bind_some]
    cases hmin : (peers.toList.map (·.2)).min? with
    | none => exact hsynced
    | some m =>
      obtain ⟨⟨p, v⟩, hmem, rfl⟩ := List.mem_map.mp (List.min?_mem hmin)
      have hp := Std.ExtTreeMap.mem_toList_iff_getElem?_eq_some.mp hmem
      obtain ⟨-, z, hz, hsource⟩ := h.held id peers hheld p v hp
      rw [hn] at hz
      cases hz
      exact hsource

/-- The version an edit makes comes from the one it replaced. -/
theorem Traced.edited {base : Int} {kept : Bool} (h : Traced log before)
    (hbase : Source log before base)
    (hmade : .saved side before loaded (editedNote before base keep c now) kept ∈ log)
    (hok : overtaken before loaded = true → kept = true) :
    Traced log (editedNote before base keep c now) ∧
      ∀ m, Source log before m → Source log (editedNote before base keep c now) m := by
  have hkeeps : Made.keepsText
      (.saved side before loaded (editedNote before base keep c now) kept) = true := by
    show (!overtaken before loaded || kept) = true
    cases hover : overtaken before loaded with
    | false => rfl
    | true => exact hok hover
  have hsource : ∀ m, Source log before m → Source log (editedNote before base keep c now) m := by
    intro m hm
    refine hm.imp id ?_
    rintro ⟨v, hv, hmod, hcomes⟩
    exact ⟨v, hv, hmod, .saved hcomes hmade hkeeps⟩
  refine ⟨⟨.made hmade, ?_⟩, hsource⟩
  intro m hm
  rw [names_iff] at hm
  rcases hm with rfl | hm
  · exact hsource _ hbase
  · exact hsource m (h.chain (mem_ancestorsAfter hm))

/-- A saved edit keeps a shelf traced. -/
theorem ShelfTraced.edited {s' : Shelf} (h : ShelfTraced log peer s)
    (hsaved : Saved s id loaded now before c s') :
    ShelfTraced (.saved side before loaded (editedNote before (s.baseOf id) (s.mustKeep id) c now)
      (s'.notes.contains before.copyOf.id) :: log) peer s' := by
  have hid := h.id_eq id before hsaved.stored
  generalize hmade : Made.saved side before loaded (editedNote before (s.baseOf id)
    (s.mustKeep id) c now) (s'.notes.contains before.copyOf.id) = made
  have hsub := List.subset_cons_self made log
  have hbefore := (h.notes id before hsaved.stored).mono hsub
  have hmem : .saved side before loaded (editedNote before (s.baseOf id) (s.mustKeep id) c now)
      (s'.notes.contains before.copyOf.id) ∈ made :: log := by
    rw [hmade]
    exact List.mem_cons_self ..
  obtain ⟨htraced, hcomes⟩ :=
    hbefore.edited ((h.baseOf hsaved.stored).mono hsub) hmem hsaved.kept
  have hput := (h.mono hsub).put htraced (fun z hz => by
    rw [show (editedNote before (s.baseOf id) (s.mustKeep id) c now).id = id from hid,
      hsaved.stored] at hz
    cases hz
    exact hcomes)
  rw [show (editedNote before (s.baseOf id) (s.mustKeep id) c now).id = id from hid] at hput
  rcases hsaved.shelf with rfl | ⟨-, hnew, rfl⟩
  · exact hput
  · exact hput.keepCopy hbefore hnew

/-! ### The log -/

/-- What people made: new notes have ids without `~`, an edit is of a
version and has a later stamp, and a version of a copy is not older than
what was copied. -/
structure LogTraced (log : List Made) : Prop where
  created : ∀ side n, .created side n ∈ log → '~' ∉ n.id.toList
  saved : ∀ side before loaded after kept, .saved side before loaded after kept ∈ log →
    after.id = before.id ∧ before.modified ≤ after.modified
  bounded : ∀ m ∈ log, 0 < m.note.modified ∧ m.note.modified ≤ i64Max
  born : ∀ m ∈ log, ∀ id k, m.note.id = copyId id k → k ≤ m.note.modified

section Log
variable {log : List Made} {v w : Note} {ok : Made → Bool}

theorem Version.bounded (h : LogTraced log) (hv : Version log v) :
    0 < v.modified ∧ v.modified ≤ i64Max := by
  induction hv with
  | made hm => exact h.bounded _ hm
  | copy _ ih => exact ih

theorem Version.born (h : LogTraced log) (hv : Version log v) {id : String} {k : Int}
    (hid : v.id = copyId id k) : k ≤ v.modified := by
  cases hv with
  | made hm => exact h.born _ hm id k hid
  | copy _ => exact (copyId_inj hid).2.symm.le

theorem ComesFrom.le_modified (h : LogTraced log) (hcomes : ComesFrom ok log v w) :
    v.modified ≤ w.modified := by
  induction hcomes with
  | refl => exact le_refl _
  | saved _ hm _ ih => exact ih.trans (h.saved _ _ _ _ _ hm).2
  | copied _ ih => exact ih

/-- A version with the stamp of one that `w` comes from, under the id of
`w`, is itself one that `w` comes from: the chain runs through it. -/
theorem ComesFrom.of_stamp (h : LogTraced log) (hunique : UniqueStamps log) {mine : Note}
    (hv : Version log v) (hmine : Version log mine) (hw : Version log w)
    (hcomes : ComesFrom ok log v w) (hversions : ∀ side before loaded after kept,
      .saved side before loaded after kept ∈ log → Version log before)
    (hmod : mine.modified = v.modified) (hid : mine.id = w.id) : ComesFrom ok log mine w := by
  induction hcomes with
  | refl =>
    rw [hunique mine v hmine hv hid hmod]
    exact .refl
  | saved _ hm hok ih =>
    have hsame := (h.saved _ _ _ _ _ hm).1
    exact .saved (ih (hversions _ _ _ _ _ hm) (hid.trans hsame)) hm hok
  | @copied u hu _ =>
    -- The copy is the first version under its id, and none there is older.
    have hlo : u.modified ≤ mine.modified := hmine.born h hid
    have hhi := hu.le_modified h
    have heq : mine = u.copyOf := by
      refine hunique mine u.copyOf hmine hw hid ?_
      show mine.modified = u.modified
      omega
    rw [heq]
    exact .refl

end Log

variable {w : World} {made : Made} {incoming : Note}

/-! ### The world -/

structure WorldTraced (w : World) : Prop where
  log : LogTraced w.log
  versions : ∀ side before loaded after kept, .saved side before loaded after kept ∈ w.log →
    Version w.log before
  shelf : ∀ side, ShelfTraced w.log side.other.id (w.shelf side)
  inbox : ∀ side, ∀ packet ∈ w.inbox side, ∀ n ∈ packet.notes, Traced w.log n

theorem worldTraced_empty : WorldTraced World.empty where
  log := by
    refine ⟨?_, ?_, ?_, ?_⟩ <;> simp [World.empty]
  versions := by simp [World.empty]
  shelf side := by
    refine ⟨?_, ?_, ?_, ?_⟩ <;> simp [World.empty]
  inbox := by simp [World.empty]

/-- One side gets a shelf that is traced, and sends notes that are. -/
theorem WorldTraced.moved (h : WorldTraced w) {inbox : Side → List Packet}
    (hs : ShelfTraced w.log side.other.id s)
    (hinbox : ∀ t, ∀ packet ∈ inbox t, packet ∈ w.inbox t ∨ ∀ n ∈ packet.notes, Traced w.log n) :
    WorldTraced { w with shelf := Function.update w.shelf side s, inbox := inbox } where
  log := h.log
  versions := h.versions
  shelf t := by
    by_cases ht : t = side
    · subst ht
      simpa using hs
    · simpa [ht] using h.shelf t
  inbox t packet hp n hn := by
    rcases hinbox t packet hp with hold | hnew
    · exact h.inbox t packet hold n hn
    · exact hnew n hn

/-- A person made a version on one side. -/
theorem WorldTraced.recorded (h : WorldTraced w) (hlog : LogTraced (made :: w.log))
    (hversions : ∀ side before loaded after kept, made = .saved side before loaded after kept →
      Version w.log before) (hs : ShelfTraced (made :: w.log) side.other.id s) :
    WorldTraced ((w.setShelf side s).record made) where
  log := hlog
  versions t before loaded after kept hm := by
    rcases List.mem_cons.mp hm with rfl | hm
    · exact (hversions _ _ _ _ _ rfl).mono (List.subset_cons_self _ _)
    · exact (h.versions _ _ _ _ _ hm).mono (List.subset_cons_self _ _)
  shelf t := by
    show ShelfTraced (made :: w.log) t.other.id (Function.update w.shelf side s t)
    by_cases ht : t = side
    · subst ht
      simpa using hs
    · rw [Function.update_of_ne ht]
      exact (h.shelf t).mono (List.subset_cons_self _ _)
  inbox t packet hp n hn := (h.inbox t packet hp n hn).mono (List.subset_cons_self _ _)

theorem LogTraced.cons (h : LogTraced log)
    (hcreated : ∀ side n, made = .created side n → '~' ∉ n.id.toList)
    (hsaved : ∀ side before loaded after kept, made = .saved side before loaded after kept →
      after.id = before.id ∧ before.modified ≤ after.modified)
    (hbounded : 0 < made.note.modified ∧ made.note.modified ≤ i64Max)
    (hborn : ∀ id k, made.note.id = copyId id k → k ≤ made.note.modified) :
    LogTraced (made :: log) where
  created side n hm := (List.mem_cons.mp hm).elim (fun heq => hcreated side n heq.symm)
    (h.created side n)
  saved side before loaded after kept hm := (List.mem_cons.mp hm).elim
    (fun heq => hsaved side before loaded after kept heq.symm)
    (h.saved side before loaded after kept)
  bounded m hm := (List.mem_cons.mp hm).elim (fun heq => heq ▸ hbounded) (h.bounded m)
  born m hm := (List.mem_cons.mp hm).elim (fun heq => heq ▸ hborn) (h.born m)

/-- What is on its way after `packets` were posted. -/
theorem posted_cases {w : World} {side : Side} {packets : List Packet} {Q : Packet → Prop}
    (hQ : ∀ packet ∈ packets, Q packet) :
    ∀ t, ∀ packet ∈ (w.post side packets).inbox t, packet ∈ w.inbox t ∨ Q packet := by
  intro t packet hp
  by_cases ht : t = side.other
  · subst ht
    simp only [World.post, World.setInbox, Function.update_self] at hp
    exact (List.mem_append.mp hp).imp id (hQ packet)
  · simp only [World.post, World.setInbox, Function.update_of_ne ht] at hp
    exact Or.inl hp

/-- Every step keeps the world traced. -/
theorem step_traced {w' : World} {a : Action} (h : WorldTraced w) (hstep : step w a = some w') :
    WorldTraced w' := by
  cases step_cases hstep with
  | create side id now body hfresh hclock =>
    simp only [freshId, Bool.and_eq_true, Bool.not_eq_true', List.contains_eq_mem,
      decide_eq_false_iff_not, List.any_eq_false, beq_iff_eq] at hfresh
    simp only [clockReads, Bool.and_eq_true, decide_eq_true_eq] at hclock
    have hlog : LogTraced (.created side (createdNote id now body) :: w.log) := by
      refine h.log.cons ?_ (by simp) hclock ?_
      · rintro side n ⟨⟩
        exact hfresh.1
      · intro j k hid
        have hid' : id = copyId j k := hid
        exact absurd (tilde_mem_copyId j k) (hid' ▸ hfresh.1)
    -- No shelf holds the new id: versions without `~` are in the log.
    have hnew : (w.shelf side).notes[id]? = none := by
      cases hz : (w.shelf side).notes[id]? with
      | none => rfl
      | some z =>
        have hid := (h.shelf side).id_eq id z hz
        obtain ⟨m, hm, rfl⟩ := ((h.shelf side).notes id z hz).version.made_of_no_tilde
          (hid ▸ hfresh.1)
        exact absurd hid (hfresh.2 m hm)
    have hmono := (h.shelf side).mono
      (List.subset_cons_self (.created side (createdNote id now body)) w.log)
    refine h.recorded hlog (by simp) (hmono.put (n := createdNote id now body) ?_
      (fun z hz => by rw [show (createdNote id now body).id = id from rfl, hnew] at hz; cases hz))
    have hversion : Version (.created side (createdNote id now body) :: w.log)
        (Made.created side (createdNote id now body)).note := .made (List.mem_cons_self ..)
    refine ⟨hversion, ?_⟩
    intro m hm
    simp only [names_iff, createdNote, List.not_mem_nil, or_false] at hm
    exact Or.inl hm.symm
  | edit side id loaded change now before c s after hsaved hclock hafter =>
    have hshelf := h.shelf side
    have hid := hshelf.id_eq id before hsaved.stored
    have hbefore := hshelf.notes id before hsaved.stored
    have hafter' := hsaved.after_eq hid hafter
    subst hafter'
    simp only [clockReads, Bool.and_eq_true, decide_eq_true_eq] at hclock
    have hle : before.modified ≤ max now (i64SaturatingSucc before.modified) := by
      have := (hbefore.version.bounded h.log).2
      unfold i64SaturatingSucc
      omega
    have hlog : LogTraced (.saved side before loaded (editedNote before
        ((w.shelf side).baseOf id) ((w.shelf side).mustKeep id) c now)
        (s.notes.contains before.copyOf.id) :: w.log) := by
      refine h.log.cons (by simp) ?_ ?_ ?_
      · rintro _ _ _ _ _ ⟨⟩
        exact ⟨rfl, hle⟩
      · show 0 < max now (i64SaturatingSucc before.modified) ∧
          max now (i64SaturatingSucc before.modified) ≤ i64Max
        unfold i64SaturatingSucc
        omega
      · intro j k hk
        exact (hbefore.version.born h.log hk).trans hle
    refine h.recorded hlog ?_ ?_
    · rintro _ _ _ _ _ ⟨⟩
      exact hbefore.version
    · exact hshelf.edited hsaved
  | push side ids hpush =>
    refine h.moved (s := sentTo (w.shelf side) .notes ids side.other.id) ?_ ?_
    · exact sentTo_keeps (P := ShelfTraced w.log side.other.id)
        (fun s id n _ hs => hs.recordSent id n.modified) (h.shelf side) _ _
    · refine posted_cases (fun packet hp n hn => ?_)
      obtain ⟨id, -, hid⟩ := mem_itemsPackets hp hn
      exact (h.shelf side).notes id n hid
  | sendIndex side =>
    have hsame : Function.update w.shelf side (w.shelf side) = w.shelf :=
      Function.update_eq_self side w.shelf
    have hpackets : ∀ packet ∈ indexPackets (w.shelf side) .notes, ∀ n ∈ packet.notes,
        Traced w.log n := by
      intro packet hp n hn
      obtain ⟨items, -, rfl⟩ := List.mem_map.mp hp
      cases hn
    have hmoved := h.moved (h.shelf side) (@posted_cases w side _ _ hpackets)
    rw [hsame] at hmoved
    exact hmoved
  | deliver side packet rest hinbox =>
    have hpackets : ∀ n ∈ packet.notes, Traced w.log n :=
      h.inbox side packet (hinbox ▸ List.mem_cons_self ..)
    have hs : ShelfTraced w.log side.other.id
        (handleFrom (w.shelf side) packet side.other.id).1 := by
      refine handleFrom_keeps (P := ShelfTraced w.log side.other.id) ?_ ?_ ?_ ?_ (h.shelf side)
      · intro s n hn hs
        exact hs.merge (Side.id_ne_empty _) (hpackets n hn)
      · intro s id m hs
        exact hs.acknowledge (Side.id_ne_empty _) id m
      · intro s id n _ hs
        exact hs.recordSent id n.modified
      · intro s snippets hs
        exact ⟨hs.id_eq, hs.notes, hs.synced, hs.held⟩
    refine h.moved hs ?_
    intro t p hp
    have hcases := @posted_cases (w.setInbox side rest) side
      (handleFrom (w.shelf side) packet side.other.id).2.1
      (fun p => ∀ n ∈ p.notes, Traced w.log n) ?_ t p hp
    · refine hcases.imp ?_ id
      intro hold
      by_cases ht : t = side
      · subst ht
        simp only [World.setInbox, Function.update_self] at hold
        rw [hinbox]
        exact List.mem_cons_of_mem _ hold
      · simpa [World.setInbox, ht] using hold
    · intro answer ha n hn
      obtain ⟨id, hid⟩ := handleFrom_answers ha hn
      exact hs.notes id n hid
  | lose side place hplace =>
    refine ⟨h.log, h.versions, h.shelf, ?_⟩
    intro t packet hp
    refine h.inbox t packet ?_
    by_cases ht : t = side
    · subst ht
      simp only [World.setInbox, Function.update_self] at hp
      exact List.mem_of_mem_eraseIdx hp
    · simpa [World.setInbox, ht] using hp

theorem run_traced {actions : List Action} (hrun : runWorld actions = some w) : WorldTraced w :=
  Lib.runFrom_invariant (I := WorldTraced) (fun _ _ _ h hstep => step_traced h hstep)
    worldTraced_empty hrun

/-! ### No silent loss -/

/-- `side` is in the middle of an `items` packet, in the state `st`, and
`incoming` is next. -/
def MidPacket (w : World) (side : Side) (st : ItemsState) (incoming : Note) : Prop :=
  ∃ items packets done next, w.inbox side = .noteItems items :: packets ∧
    items.take maxItemsPerPacket = done ++ incoming :: next ∧
    st = done.foldl (takeNote side.other.id) { shelf := w.shelf side }

/-- A merge that puts `incoming` in the place of a live version and makes
no copy: it comes from that version by saves that are `ok`, or says the
same, or the copy was already on the shelf. -/
def NothingLost (ok : Made → Bool) (w : World) : Prop :=
  ∀ side st incoming mine, MidPacket w side st incoming →
    st.shelf.notes[incoming.id]? = some mine → mine.deleted = false →
    (mergeNoteFrom st.shelf incoming side.other.id).1.notes[incoming.id]? = some incoming →
    (mergeNoteFrom st.shelf incoming side.other.id).2 ≠ .conflict →
    ComesFrom ok w.log mine incoming ∨ incoming.sameContent mine = true ∨
      st.shelf.notes.contains (copyId incoming.id mine.modified) = true

/-- Every stamp that a version on a shelf or on its way names is of a
version it comes from by saves that are `ok`. -/
def StampsLead (ok : Made → Bool) (w : World) : Prop :=
  ∀ n, (∃ side, (∃ k : String, (w.shelf side).notes[k]? = some n) ∨
      ∃ packet ∈ w.inbox side, n ∈ packet.notes) →
    ∀ m, n.names m = true →
      m = 0 ∨ ∃ v, Version w.log v ∧ v.modified = m ∧ ComesFrom ok w.log v n

/-- In the middle of a packet the shelf is traced, and so is what is next. -/
theorem MidPacket.traced (h : WorldTraced w) {st : ItemsState} (hmid : MidPacket w side st incoming)
    : ShelfTraced w.log side.other.id st.shelf ∧ Traced w.log incoming := by
  obtain ⟨items, packets, done, next, hinbox, hitems, rfl⟩ := hmid
  have hpacket : ∀ n ∈ items.take maxItemsPerPacket, Traced w.log n := by
    intro n hn
    exact h.inbox side (.noteItems items) (hinbox ▸ List.mem_cons_self ..) n
      (List.mem_of_mem_take hn)
  rw [hitems] at hpacket
  refine ⟨?_, hpacket incoming (by simp)⟩
  refine takeNotes_keeps (P := ShelfTraced w.log side.other.id) ?_ (h.shelf side)
  intro s n hn hs
  exact hs.merge (Side.id_ne_empty _) (hpacket n (List.mem_append_left _ hn))

/-- A live version never loses to a deletion among siblings. -/
theorem not_incomingWins_of_deleted {mine : Note} (hmine : mine.deleted = false)
    (hincoming : incoming.deleted = true) : incomingWins mine incoming = false := by
  simp [incomingWins, hmine, hincoming]

/-- In every state people and packets can lead to, with unique stamps,
nothing is lost by a merge, and every stamp leads to a version the text
comes from. The saves on the way were typed over the version they replaced
or left a copy of it. -/
theorem no_silent_loss (actions : List Action) (w : World) (hrun : runWorld actions = some w)
    (hunique : UniqueStamps w.log) :
    NothingLost Made.keepsText w ∧ StampsLead Made.keepsText w := by
  have htraced := run_traced hrun
  refine ⟨?_, ?_⟩
  · intro side st incoming mine hmid hmine hlive hstored hcopy
    obtain ⟨hshelf, hincoming⟩ := hmid.traced htraced
    have hid := hshelf.id_eq _ _ hmine
    have hmineTraced := hshelf.notes _ _ hmine
    have hpos := (hmineTraced.version.bounded htraced.log).1
    have hcase := mergeNoteFrom_cases st.shelf incoming side.other.id
    generalize mergeNoteFrom st.shelf incoming side.other.id = r at hcase hstored hcopy
    cases hcase with
    | absent hnone =>
      rw [hnone] at hmine
      cases hmine
    | same mine' hmine' hmod hsame =>
      rw [hmine] at hmine'
      cases hmine'
      exact Or.inr (Or.inl ((sameContent_comm _ _).trans hsame))
    | newer mine' hmine' hnames =>
      rw [hmine] at hmine'
      cases hmine'
      left
      rcases hincoming.named _ hnames with hzero | ⟨v, hv, hmod, hcomes⟩
      · omega
      · exact hcomes.of_stamp htraced.log hunique hv hmineTraced.version hincoming.version
          htraced.versions hmod.symm hid
    | older mine' hmine' hdiff hnames hnamed =>
      -- Ours stays, so it is the incoming version.
      have hsame : mine = incoming := Option.some.inj (hmine.symm.trans hstored)
      rw [hsame]
      exact Or.inl .refl
    | sibling mine' hmine' hdiff hnames hnamed =>
      rw [hmine] at hmine'
      cases hmine'
      have hwinner : siblingWinner mine incoming = incoming := by
        rw [mergeSiblings_notes _ _ _ _ _ hmine hid, if_pos rfl] at hstored
        exact Option.some.inj hstored
      cases hwins : incomingWins mine incoming with
      | false =>
        rw [siblingWinner, hwins] at hwinner
        rw [show mine = incoming from hwinner]
        exact Or.inl .refl
      | true =>
        have hincomingLive : incoming.deleted = false := by
          cases hdel : incoming.deleted with
          | false => rfl
          | true =>
            rw [not_incomingWins_of_deleted hlive hdel] at hwins
            cases hwins
        have hno : makesCopy st.shelf mine incoming = false := by
          cases hmakes : makesCopy st.shelf mine incoming with
          | false => rfl
          | true =>
            rw [mergeSiblings_eq, hwins, hmakes] at hcopy
            exact absurd rfl hcopy
        rw [makesCopy, siblingLoser, siblingWinner, hwins] at hno
        simp only [if_true, inConflict, hlive, hincomingLive, Bool.not_false, Bool.and_true,
          Bool.and_eq_false_iff, Bool.not_eq_false', copyOf_id, hid] at hno
        exact Or.inr hno
  · rintro n ⟨side, ⟨k, hk⟩ | ⟨packet, hp, hn⟩⟩
    · exact ((htraced.shelf side).notes k n hk).named
    · exact (htraced.inbox side packet hp n hn).named

/-! ### A save over a version that had moved on -/

/-- The person typed `body`. -/
def typed (body : String) (c : Content) : Content := { c with body := body }

/-- The phone's edit of a note lands on the desk while the person there
types over the older version. The desk keeps the phone's version as a copy
of its own and sends what was typed. -/
def typedOverOlder : List Action :=
  [.create .desk "n" 1 "milk", .push .desk ["n"], .deliver .phone, .deliver .desk,
    .edit .phone "n" none (typed "milk, eggs") 2, .push .phone ["n"], .deliver .desk,
    .deliver .phone, .edit .desk "n" (some 1) (typed "milk, tea") 3, .push .desk ["n"]]

/-- A version of the note in that run. -/
def milkNote (body : String) (modified parent : Int) (ancestors : List Int) : Note where
  id := "n"
  title := ""
  body := body
  pinned := false
  created := 1
  modified := modified
  parent := parent
  ancestors := ancestors
  deleted := false

def milkLog : List Made :=
  [.saved .desk (milkNote "milk, eggs" 2 1 [1]) (some 1) (milkNote "milk, tea" 3 2 [2, 1]) true,
    .saved .phone (milkNote "milk" 1 0 []) none (milkNote "milk, eggs" 2 1 [1]) false,
    .created .desk (milkNote "milk" 1 0 [])]

theorem typedOverOlder_ends :
    ∃ w, runWorld typedOverOlder = some w ∧ w.log = milkLog ∧
      w.inbox .phone = [.noteItems [milkNote "milk, tea" 3 2 [2, 1]]] ∧
      (w.shelf .phone).notes["n"]? = some (milkNote "milk, eggs" 2 1 [1]) ∧
      (w.shelf .phone).notes.contains "n~2" = false := by
  have hends : (runWorld typedOverOlder).map (fun w => (w.log, w.inbox .phone,
      (w.shelf .phone).notes["n"]?, (w.shelf .phone).notes.contains "n~2")) =
        some (milkLog, [.noteItems [milkNote "milk, tea" 3 2 [2, 1]]],
          some (milkNote "milk, eggs" 2 1 [1]), false) := by
    decide +kernel
  obtain ⟨w, hw, heq⟩ := Option.map_eq_some_iff.mp hends
  simp only [Prod.mk.injEq] at heq
  exact ⟨w, hw, heq⟩

theorem uniqueStamps_milkLog : UniqueStamps milkLog :=
  uniqueStamps_of_made (by decide +kernel) (by decide +kernel)

/-- A version that a person did not make by an `ok` save comes from
nothing but itself. -/
theorem not_comesFrom {ok : Made → Bool} {w : Note} (hne : v ≠ w) (hid : '~' ∉ w.id.toList)
    (hlog : ∀ m ∈ log, m.note = w → ok m = false) : ¬ComesFrom ok log v w := by
  intro h
  cases h with
  | refl => exact hne rfl
  | saved _ hm hok =>
    rw [hlog _ hm rfl] at hok
    cases hok
  | copied _ => exact hid (tilde_mem_copyId _ _)

/-- What was typed over an older version replaces the phone's version
there, which it was not edited from; the copy is on the desk alone. -/
theorem typed_over_older_loses : ¬ ∀ (actions : List Action) (w : World),
    runWorld actions = some w → UniqueStamps w.log → NothingLost Made.typedOver w := by
  intro h
  obtain ⟨w, hrun, hlog, hinbox, hmine, hcopy⟩ := typedOverOlder_ends
  have hlost := h typedOverOlder w hrun (hlog ▸ uniqueStamps_milkLog)
  have hmid : MidPacket w .phone { shelf := w.shelf .phone } (milkNote "milk, tea" 3 2 [2, 1]) :=
    ⟨_, [], [], [], hinbox, rfl, rfl⟩
  have hmerge : mergeNoteFrom (w.shelf .phone) (milkNote "milk, tea" 3 2 [2, 1]) Side.phone.other.id
      = ((w.shelf .phone).take (milkNote "milk, tea" 3 2 [2, 1]) Side.phone.other.id, .taken) := by
    have hmine' : (w.shelf .phone).notes[(milkNote "milk, tea" 3 2 [2, 1]).id]?
        = some (milkNote "milk, eggs" 2 1 [1]) := hmine
    have hdiffers : (milkNote "milk, eggs" 2 1 [1]).modified
        ≠ (milkNote "milk, tea" 3 2 [2, 1]).modified := by decide
    have hnames : (milkNote "milk, tea" 3 2 [2, 1]).names
        (milkNote "milk, eggs" 2 1 [1]).modified = true := by decide
    rw [mergeNoteFrom, hmine']
    simp only
    rw [if_neg (fun h => hdiffers h.1), if_pos hnames]
  have hstored : (mergeNoteFrom (w.shelf .phone) (milkNote "milk, tea" 3 2 [2, 1])
      Side.phone.other.id).1.notes[(milkNote "milk, tea" 3 2 [2, 1]).id]?
        = some (milkNote "milk, tea" 3 2 [2, 1]) := by
    rw [hmerge, take_notes, getElem?_keyInsert, if_pos rfl]
  have hno : (mergeNoteFrom (w.shelf .phone) (milkNote "milk, tea" 3 2 [2, 1])
      Side.phone.other.id).2 ≠ .conflict := by
    rw [hmerge]
    simp
  rcases hlost .phone _ _ _ hmid hmine rfl hstored hno with hcomes | hsame | hthere
  · rw [hlog] at hcomes
    exact not_comesFrom (by decide) (by decide +kernel) (by decide +kernel) hcomes
  · exact absurd hsame (by decide +kernel)
  · have hid : copyId (milkNote "milk, tea" 3 2 [2, 1]).id
        (milkNote "milk, eggs" 2 1 [1]).modified = "n~2" := by decide +kernel
    rw [hid, hcopy] at hthere
    cases hthere

/-- The same run, by what the saves kept. -/
theorem no_silent_loss_typed_over_older : ∃ w, runWorld typedOverOlder = some w ∧
    NothingLost Made.keepsText w ∧ StampsLead Made.keepsText w := by
  obtain ⟨w, hrun, hlog, -⟩ := typedOverOlder_ends
  exact ⟨w, hrun, no_silent_loss typedOverOlder w hrun (hlog ▸ uniqueStamps_milkLog)⟩

end DeskLink.Notes
