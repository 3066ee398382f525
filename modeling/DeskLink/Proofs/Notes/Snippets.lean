import DeskLink.Lib.Newest
import DeskLink.Notes.Exchange
import DeskLink.Proofs.Notes.Wire

/-!
# `DeskLink.Proofs.Notes.Snippets`: snippets in any order

`mergeSnippet` keeps the newer of two snippets, and on equal stamps the
one that came first. So the order of arrivals shows exactly when two
different snippets of one id share the latest stamp (`SnippetTie`), and
an index exchange, which compares stamps, does not repair it:

* `snippets_any_order`: the snippets do not depend on the order, and two
  devices agree after an index exchange, exactly when there is no tie.
* `snippets_tied`: two texts typed in one millisecond.
-/

set_option autoImplicit false

namespace DeskLink.Notes

variable {l l' : List Snippet} {s a b : Shelf}

/-- Snippets merged one after another. -/
def mergeSnippets (s : Shelf) (l : List Snippet) : Shelf :=
  l.foldl (fun s snippet => (mergeSnippet s snippet).1) s

/-- Every snippet is filed under its own id. -/
def Shelf.SnippetsKeyed (s : Shelf) : Prop :=
  ∀ (k : String) (n : Snippet), s.snippets[k]? = some n → n.id = k

/-- Two different snippets of one id have the latest stamp of those that
come, later than the one on the shelf. -/
def SnippetTie (s : Shelf) (l : List Snippet) : Prop :=
  ∃ id, Lib.Tied Snippet.modified s.snippets[id]? (l.filter (·.id = id))

/-! ### One id at a time -/

theorem mergeSnippet_getElem? (s : Shelf) (n : Snippet) (k : String) :
    (mergeSnippet s n).1.snippets[k]?
      = if n.id = k then Lib.newer Snippet.modified s.snippets[k]? n else s.snippets[k]? := by
  have htaken (h : ∀ mine, s.snippets[n.id]? = some mine → mine.modified < n.modified) :
      Lib.newer Snippet.modified s.snippets[n.id]? n = some n := by
    cases hmine : s.snippets[n.id]? with
    | none => rfl
    | some mine => exact Lib.newer_some_of_lt (h mine hmine)
  unfold mergeSnippet
  cases hmine : s.snippets[n.id]? with
  | none =>
    show (s.snippets.insert n.id n)[k]? = _
    rw [getElem?_keyInsert]
    split
    · rename_i hk
      rw [← hk, htaken (fun mine h => absurd (hmine.symm.trans h) (by simp))]
    · rfl
  | some mine =>
    simp only
    split
    · rename_i hle
      split
      · rename_i hk
        rw [← hk, hmine, Lib.newer_some_of_le hle]
      · rfl
    · rename_i hlt
      show (s.snippets.insert n.id n)[k]? = _
      rw [getElem?_keyInsert]
      split
      · rename_i hk
        have hnewer : mine.modified < n.modified := by omega
        rw [← hk, htaken (fun mine' h => by rw [hmine] at h; cases h; exact hnewer)]
      · rfl

/-- What is kept under an id depends on the snippets of that id only. -/
theorem mergeSnippets_getElem? (s : Shelf) (l : List Snippet) (k : String) :
    (mergeSnippets s l).snippets[k]?
      = Lib.newest Snippet.modified s.snippets[k]? (l.filter (·.id = k)) := by
  induction l generalizing s with
  | nil => rfl
  | cons n l ih =>
    show (mergeSnippets (mergeSnippet s n).1 l).snippets[k]? = _
    rw [ih, mergeSnippet_getElem?]
    by_cases hk : n.id = k
    · simp [hk, Lib.newest]
    · simp [hk]

/-- The stamps kept do not depend on the order. -/
theorem mergeSnippets_stamp (s : Shelf) (hl : l.Perm l') (k : String) :
    (mergeSnippets s l).snippets[k]?.map Snippet.modified
      = (mergeSnippets s l').snippets[k]?.map Snippet.modified := by
  rw [mergeSnippets_getElem?, mergeSnippets_getElem?]
  exact Lib.newest_stamp_perm _ (hl.filter _)

theorem mergeSnippets_perm (s : Shelf) (hl : l.Perm l') (htie : ¬SnippetTie s l') :
    (mergeSnippets s l).snippets = (mergeSnippets s l').snippets := by
  refine Std.ExtTreeMap.ext_getElem? (fun k => ?_)
  rw [mergeSnippets_getElem?, mergeSnippets_getElem?]
  exact Lib.newest_perm _ (hl.filter _) (fun htied => htie ⟨k, htied⟩)

/-- Of tied snippets the one that comes first is kept. -/
theorem mergeSnippets_first (s : Shelf) {k : String} {x : Snippet}
    (hx : Lib.Tops Snippet.modified s.snippets[k]? (l.filter (·.id = k)) x) :
    (mergeSnippets s (x :: l.erase x)).snippets[k]? = some x := by
  obtain ⟨hmem, hid⟩ := List.mem_filter.mp hx.mem
  have hperm : l.Perm (x :: l.erase x) := List.perm_cons_erase hmem
  have hcons : (x :: l.erase x).filter (·.id = k) = x :: (l.erase x).filter (·.id = k) := by
    rw [List.filter_cons, if_pos hid]
  have hfilter := hperm.filter (·.id = k)
  rw [hcons] at hfilter
  rw [mergeSnippets_getElem?, hcons]
  exact Lib.newest_of_tops hx hfilter

/-! ### Filed under their ids -/

theorem mergeSnippet_keyed (hs : s.SnippetsKeyed) (n : Snippet) :
    (mergeSnippet s n).1.SnippetsKeyed := by
  intro k n' hn'
  rw [mergeSnippet_getElem?] at hn'
  split at hn'
  · rename_i hk
    unfold Lib.newer at hn'
    split at hn'
    · exact hs k n' hn'
    · cases hn'
      exact hk
  · exact hs k n' hn'

theorem mergeSnippets_keyed (hs : s.SnippetsKeyed) (l : List Snippet) :
    (mergeSnippets s l).SnippetsKeyed := by
  induction l generalizing s with
  | nil => exact hs
  | cons n l ih => exact ih (mergeSnippet_keyed hs n)

/-! ### The index exchange -/

/-- Nothing newer is listed: nothing is wanted. -/
theorem wanted_snippets_eq_nil {index : List IndexEntry}
    (h : ∀ e ∈ index, ∃ mine, s.snippets[e.id]? = some mine ∧ e.modified ≤ mine.modified) :
    wanted s .snippets index = [] := by
  unfold wanted
  rw [List.map_eq_nil_iff, List.filter_eq_nil_iff]
  intro e he
  obtain ⟨mine, hmine, hle⟩ := h e he
  simp only [hmine, Option.all_some, Bool.and_eq_true, decide_eq_true_eq]
  omega

/-- The index of a shelf with the same stamps asks for nothing. -/
theorem handleAll_index_snippets (ha : a.SnippetsKeyed)
    (hab : ∀ k : String, a.snippets[k]?.map Snippet.modified = b.snippets[k]?.map Snippet.modified)
    (peer : String) : handleAll b (indexPackets a .snippets) peer = (b, []) := by
  have hentries : ∀ e ∈ indexEntries a .snippets,
      ∃ mine, b.snippets[e.id]? = some mine ∧ e.modified ≤ mine.modified := by
    intro e he
    obtain ⟨⟨k, n⟩, hn, rfl⟩ := List.mem_map.mp he
    have hk : a.snippets[k]? = some n := Std.ExtTreeMap.mem_toList_iff_getElem?_eq_some.mp hn
    have hstamp := hab k
    rw [hk] at hstamp
    cases hmine : b.snippets[k]? with
    | none => simp [hmine] at hstamp
    | some mine =>
      have heq : n.modified = mine.modified := by simpa [hmine] using hstamp
      exact ⟨mine, by rw [ha k n hk]; exact hmine, le_of_eq heq⟩
  have hparts : ∀ part ∈ splitIndex IndexEntry.jsonLength (indexEntries a .snippets) [] 0,
      ∀ e ∈ part, e ∈ indexEntries a .snippets := by
    intro part hpart e he
    have hflat := splitIndex_flatten IndexEntry.jsonLength (indexEntries a .snippets) [] 0
    rw [List.nil_append] at hflat
    rw [← hflat]
    exact List.mem_flatten.mpr ⟨part, hpart, he⟩
  unfold indexPackets
  generalize splitIndex IndexEntry.jsonLength (indexEntries a .snippets) [] 0 = parts at hparts ⊢
  induction parts with
  | nil => rfl
  | cons part parts ih =>
    obtain ⟨hpart, hrest⟩ := List.forall_mem_cons.mp hparts
    have hnone : wanted b .snippets (part.take maxIndexEntries) = [] :=
      wanted_snippets_eq_nil (fun e he => hentries e (hpart e (List.mem_of_mem_take he)))
    have hhandle : handleFrom b (.index .snippets part) peer = (b, [], false) := by
      show (b, (chunksOf fetchIds (wanted b .snippets (part.take maxIndexEntries))).map
        (Packet.fetch .snippets), false) = (b, [], false)
      rw [hnone, chunksOf_nil, List.map_nil]
    have hstep : handleAll b ((part :: parts).map (Packet.index .snippets)) peer
        = handleAll b (parts.map (Packet.index .snippets)) peer := by
      show (parts.map (Packet.index .snippets)).foldl _
        ((handleFrom b (.index .snippets part) peer).1,
          [] ++ (handleFrom b (.index .snippets part) peer).2.1) = _
      rw [hhandle]
      rfl
    rw [hstep]
    exact ih hrest

/-- Two shelves with the same stamps exchange nothing. -/
theorem exchangeIndexes_snippets (ha : a.SnippetsKeyed) (hb : b.SnippetsKeyed)
    (hab : ∀ k : String, a.snippets[k]?.map Snippet.modified = b.snippets[k]?.map Snippet.modified)
    (idA idB : String) : exchangeIndexes .snippets a b idA idB = (a, b) := by
  unfold exchangeIndexes
  rw [handleAll_index_snippets ha hab idA]
  simp only
  rw [handleAll_index_snippets hb (fun k => (hab k).symm) idB]
  rfl

/-! ### Any order -/

/-- The snippets left by the arrivals `l` do not depend on their order
exactly when no two different ones of an id tie for the latest. The same
holds of two devices that merge them, each in its own order, and then
exchange their indexes. -/
theorem snippets_any_order (s : Shelf) (l : List Snippet) :
    ((∀ l', l'.Perm l → (mergeSnippets s l').snippets = (mergeSnippets s l).snippets)
        ↔ ¬SnippetTie s l) ∧
      (s.SnippetsKeyed → ∀ idA idB,
        ((∀ l₁ l₂, l₁.Perm l → l₂.Perm l →
            (exchangeIndexes .snippets (mergeSnippets s l₁) (mergeSnippets s l₂) idA idB).1.snippets
              = (exchangeIndexes .snippets (mergeSnippets s l₁) (mergeSnippets s l₂)
                  idA idB).2.snippets)
          ↔ ¬SnippetTie s l)) := by
  -- Tied snippets, each put first in its turn, leave different shelves.
  have htie (h : ∀ l₁ l₂, l₁.Perm l → l₂.Perm l →
      (mergeSnippets s l₁).snippets = (mergeSnippets s l₂).snippets) : ¬SnippetTie s l := by
    intro htied
    obtain ⟨k, x, y, hx, hy, hne⟩ := htied
    have hperm (z : Snippet)
        (hz : Lib.Tops Snippet.modified s.snippets[k]? (l.filter (·.id = k)) z) :
        (z :: l.erase z).Perm l :=
      (List.perm_cons_erase (List.mem_filter.mp hz.mem).1).symm
    have hsame := h _ _ (hperm x hx) (hperm y hy)
    have heq : some x = some y := by
      rw [← mergeSnippets_first s hx, ← mergeSnippets_first s hy, hsame]
    exact hne (Option.some.inj heq)
  constructor
  · constructor
    · intro h
      exact htie (fun l₁ l₂ h₁ h₂ => (h l₁ h₁).trans (h l₂ h₂).symm)
    · intro htied l' hl
      exact mergeSnippets_perm s hl htied
  · intro hs idA idB
    have hexchange (l₁ l₂ : List Snippet) (h₁ : l₁.Perm l) (h₂ : l₂.Perm l) :
        exchangeIndexes .snippets (mergeSnippets s l₁) (mergeSnippets s l₂) idA idB
          = (mergeSnippets s l₁, mergeSnippets s l₂) :=
      exchangeIndexes_snippets (mergeSnippets_keyed hs l₁) (mergeSnippets_keyed hs l₂)
        (mergeSnippets_stamp s (h₁.trans h₂.symm)) idA idB
    constructor
    · intro h
      refine htie (fun l₁ l₂ h₁ h₂ => ?_)
      have hsame := h l₁ l₂ h₁ h₂
      rw [hexchange l₁ l₂ h₁ h₂] at hsame
      exact hsame
    · intro htied l₁ l₂ h₁ h₂
      rw [hexchange l₁ l₂ h₁ h₂]
      exact (mergeSnippets_perm s h₁ htied).trans (mergeSnippets_perm s h₂ htied).symm

/-- A snippet typed at `modified`. -/
def typedSnippet (text : String) (modified : Int) : Snippet where
  id := "list"
  text := text
  title := ""
  modified := modified
  deleted := false

theorem snippetsKeyed_empty : Shelf.SnippetsKeyed {} := by
  intro k n h
  simp at h

/-- Two texts with different stamps come to one snippet on both devices. -/
theorem snippets_any_order_typed :
    (exchangeIndexes .snippets (mergeSnippets {} [typedSnippet "milk" 5, typedSnippet "bread" 6])
        (mergeSnippets {} [typedSnippet "bread" 6, typedSnippet "milk" 5])
        "desk" "phone").1.snippets
      = (exchangeIndexes .snippets (mergeSnippets {} [typedSnippet "milk" 5, typedSnippet "bread" 6])
          (mergeSnippets {} [typedSnippet "bread" 6, typedSnippet "milk" 5])
          "desk" "phone").2.snippets := by
  have hnotie : ¬SnippetTie {} [typedSnippet "milk" 5, typedSnippet "bread" 6] := by
    rintro ⟨k, x, y, hx, hy, hne⟩
    have hx' := (List.mem_filter.mp hx.mem).1
    have hy' := (List.mem_filter.mp hy.mem).1
    have heq : x.modified = y.modified := le_antisymm (hy.top x hx.mem) (hx.top y hy.mem)
    simp only [List.mem_cons, List.not_mem_nil, or_false] at hx' hy'
    obtain rfl | rfl := hx' <;> obtain rfl | rfl := hy' <;> simp_all [typedSnippet]
  exact ((snippets_any_order {} [typedSnippet "milk" 5, typedSnippet "bread" 6]).2
    snippetsKeyed_empty "desk" "phone").mpr hnotie _ _ (List.Perm.refl _) (List.Perm.swap _ _ _)

/-- Two texts typed in one millisecond: each device keeps the one that
came first, and the index exchange leaves them so. -/
theorem snippets_tied :
    (mergeSnippets {} [typedSnippet "milk" 5, typedSnippet "bread" 5]).snippets["list"]?
        = some (typedSnippet "milk" 5) ∧
      (mergeSnippets {} [typedSnippet "bread" 5, typedSnippet "milk" 5]).snippets["list"]?
        = some (typedSnippet "bread" 5) ∧
      (exchangeIndexes .snippets (mergeSnippets {} [typedSnippet "milk" 5, typedSnippet "bread" 5])
          (mergeSnippets {} [typedSnippet "bread" 5, typedSnippet "milk" 5])
          "desk" "phone").1.snippets["list"]? = some (typedSnippet "milk" 5) ∧
      (exchangeIndexes .snippets (mergeSnippets {} [typedSnippet "milk" 5, typedSnippet "bread" 5])
          (mergeSnippets {} [typedSnippet "bread" 5, typedSnippet "milk" 5])
          "desk" "phone").2.snippets["list"]? = some (typedSnippet "bread" 5) := by
  decide +kernel

end DeskLink.Notes
