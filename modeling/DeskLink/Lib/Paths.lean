import DeskLink.Lib.Names

/-!
# `DeskLink.Lib.Paths`: what stands above a path

A path is a list of characters with separators, and `above` are the paths of
the folders it is in. `segments` are its names. Of the bad paths above one, the
topmost has none above itself (`exists_topmost`); two paths with names that
are `Alike` one by one part somewhere (`exists_parting`), at two names of one
folder.
-/

set_option autoImplicit false

namespace DeskLink.Lib

variable {sep : Char} {a s name parent t : List Char}

/-! ### Above -/

/-- The beginnings of a path that end before a separator. -/
def above (sep : Char) : List Char → List (List Char)
  | [] => []
  | c :: s =>
    if c = sep then [] :: (above sep s).map (c :: ·) else (above sep s).map (c :: ·)

theorem mem_above : a ∈ above sep s ↔ a ++ [sep] <+: s := by
  induction s generalizing a with
  | nil => simp [above]
  | cons c s ih =>
    have hmap : a ∈ (above sep s).map (c :: ·) ↔ ∃ b, b ++ [sep] <+: s ∧ c :: b = a := by
      simp only [List.mem_map, ih]
    cases a with
    | nil =>
      rw [above]
      split
      · rename_i hc
        simp [hc]
      · rename_i hc
        simp [hmap, Ne.symm hc]
    | cons d a =>
      have hcons : d :: a ∈ (above sep s).map (c :: ·) ↔ (d :: a) ++ [sep] <+: c :: s := by
        rw [hmap]
        constructor
        · rintro ⟨b, hb, heq⟩
          cases heq
          exact List.cons_prefix_cons.mpr ⟨rfl, hb⟩
        · intro h
          obtain ⟨rfl, hrest⟩ := List.cons_prefix_cons.mp h
          exact ⟨a, hrest, rfl⟩
      rw [above]
      split
      · simp [hcons]
      · exact hcons

theorem length_of_mem_above (h : a ∈ above sep s) : a.length < s.length := by
  have hlen := (mem_above.mp h).length_le
  simp only [List.length_append, List.length_singleton] at hlen
  omega

theorem above_trans {b : List Char} (hb : b ∈ above sep a) (ha : a ∈ above sep s) :
    b ∈ above sep s :=
  mem_above.mpr ((mem_above.mp hb).trans ((List.prefix_append a [sep]).trans (mem_above.mp ha)))

theorem mem_above_append (hname : sep ∉ name) :
    a ∈ above sep (parent ++ sep :: name) ↔ a = parent ∨ a ∈ above sep parent := by
  rw [mem_above, mem_above]
  constructor
  · intro h
    rcases Nat.lt_or_ge a.length parent.length with hlt | hge
    · right
      have hle : (a ++ [sep]).length ≤ parent.length := by
        simp only [List.length_append, List.length_singleton]
        omega
      exact List.prefix_of_prefix_length_le h (List.prefix_append parent _) hle
    · left
      obtain ⟨rest, hrest⟩ := h
      obtain ⟨more, rfl⟩ : parent <+: a :=
        List.prefix_of_prefix_length_le (List.prefix_append parent (sep :: name))
          ⟨[sep] ++ rest, by rw [← List.append_assoc]; exact hrest⟩ hge
      cases more with
      | nil => exact List.append_nil parent
      | cons d more =>
        -- The separator after `a` would be one of the name.
        simp only [List.append_assoc, List.append_cancel_left_eq, List.cons_append,
          List.cons.injEq] at hrest
        exact absurd (hrest.2 ▸ by simp) hname
  · rintro (rfl | h)
    · exact ⟨name, by simp⟩
    · exact h.trans (List.prefix_append parent _)

/-- The topmost bad one. -/
theorem exists_topmost {Bad : List Char → Prop} {s : List Char} (h : ∃ a ∈ above sep s, Bad a) :
    ∃ a ∈ above sep s, Bad a ∧ ∀ b ∈ above sep a, ¬Bad b := by
  induction hn : s.length using Nat.strong_induction_on generalizing s with
  | _ n ih =>
    obtain ⟨a, ha, hbad⟩ := h
    by_cases habove : ∃ b ∈ above sep a, Bad b
    · obtain ⟨b, hb, htop⟩ := ih a.length (hn ▸ length_of_mem_above ha) habove rfl
      exact ⟨b, above_trans hb ha, htop⟩
    · exact ⟨a, ha, hbad, fun b hb hbbad => habove ⟨b, hb, hbbad⟩⟩

/-! ### Parent and name -/

/-- `rsplit_once(sep)`, or the whole as a name. -/
def splitParent (sep : Char) (s : List Char) : List Char × List Char :=
  (rsplitOnce sep s).getD ([], s)

theorem splitParent_name (h : sep ∉ name) : splitParent sep name = ([], name) := by
  unfold splitParent
  rw [rsplitOnce_eq_none.mpr h]
  rfl

theorem splitParent_append (h : sep ∉ name) :
    splitParent sep (parent ++ sep :: name) = (parent, name) := by
  unfold splitParent
  rw [rsplitOnce_eq_some.mpr ⟨rfl, h⟩]
  rfl

/-- A path is a name, or a name in a folder. -/
theorem path_cases (sep : Char) (s : List Char) :
    sep ∉ s ∨ ∃ parent name, sep ∉ name ∧ s = parent ++ sep :: name := by
  cases hs : rsplitOnce sep s with
  | none => exact Or.inl (rsplitOnce_eq_none.mp hs)
  | some p =>
    obtain ⟨heq, hname⟩ := rsplitOnce_eq_some.mp hs
    exact Or.inr ⟨p.1, p.2, hname, heq⟩

theorem not_mem_above_name (h : sep ∉ name) : a ∉ above sep name := by
  intro ha
  have hmem : sep ∈ a ++ [sep] := List.mem_append_right _ List.mem_cons_self
  exact h ((mem_above.mp ha).subset hmem)

/-- Two paths of one folder are in the same folders. -/
theorem above_of_splitParent (h : (splitParent sep s).1 = (splitParent sep t).1)
    (ha : a ∈ above sep s) (hne : a ≠ []) : a ∈ above sep t := by
  rcases path_cases sep s with hnot | ⟨p, n, hn, rfl⟩
  · exact absurd ha (not_mem_above_name hnot)
  rw [splitParent_append hn] at h
  rw [mem_above_append hn] at ha
  rcases path_cases sep t with hnot | ⟨q, m, hm, rfl⟩
  · rw [splitParent_name hnot] at h
    have hp : p = [] := h
    rw [hp] at ha
    simp [above, hne] at ha
  · rw [splitParent_append hm] at h
    have hpq : p = q := h
    rw [mem_above_append hm, ← hpq]
    exact ha

/-! ### Names -/

/-- The names of a path: `split(sep)`. -/
def segments (sep : Char) : List Char → List (List Char)
  | [] => [[]]
  | c :: s =>
    if c = sep then [] :: segments sep s
    else
      match segments sep s with
      | [] => [[c]]
      | first :: rest => (c :: first) :: rest

theorem segments_ne_nil (s : List Char) : segments sep s ≠ [] := by
  cases s with
  | nil => simp [segments]
  | cons c s =>
    rw [segments]
    split
    · simp
    · split <;> simp

theorem segments_append (s t : List Char) :
    segments sep (s ++ sep :: t) = segments sep s ++ segments sep t := by
  induction s with
  | nil => simp [segments]
  | cons c s ih =>
    rw [List.cons_append, segments, ih, segments]
    split
    · rfl
    · cases hs : segments sep s with
      | nil => exact absurd hs (segments_ne_nil s)
      | cons first rest => rfl

theorem segments_name (h : sep ∉ name) : segments sep name = [name] := by
  induction name with
  | nil => rfl
  | cons c name ih =>
    rw [List.mem_cons, not_or] at h
    rw [segments, if_neg (Ne.symm h.1), ih h.2]

/-- Two paths whose names are alike one by one: those of one are those of the
other under `fold`. -/
def Alike (sep : Char) (fold : List Char → List Char) (s t : List Char) : Prop :=
  (segments sep s).map fold = (segments sep t).map fold

/-- Two paths, or two folders they are in, of one folder and with names that
are alike. -/
structure Parting (sep : Char) (fold : List Char → List Char) (f g : List Char) : Prop where
  ne : f ≠ g
  parent : (splitParent sep f).1 = (splitParent sep g).1
  name : fold (splitParent sep f).2 = fold (splitParent sep g).2

/-- Different paths with names that are alike part: at their last names, or
at folders they are in. -/
theorem exists_parting {fold : List Char → List Char} (halike : Alike sep fold s t) (hne : s ≠ t) :
    Parting sep fold s t ∨ ∃ f ∈ above sep s, ∃ g ∈ above sep t, Parting sep fold f g := by
  induction hn : s.length using Nat.strong_induction_on generalizing s t with
  | _ n ih =>
    have hlen := congrArg List.length halike
    simp only [List.length_map] at hlen
    rcases path_cases sep s with hs | ⟨p, n', hn', rfl⟩
    · rcases path_cases sep t with ht | ⟨q, m, hm, rfl⟩
      · unfold Alike at halike
        rw [segments_name hs, segments_name ht] at halike
        refine Or.inl ⟨hne, ?_, ?_⟩
        · rw [splitParent_name hs, splitParent_name ht]
        · rw [splitParent_name hs, splitParent_name ht]
          simpa using halike
      · rw [segments_name hs, segments_append, segments_name hm] at hlen
        have hpos := List.length_pos_iff.mpr (@segments_ne_nil sep q)
        simp only [List.length_append, List.length_singleton] at hlen
        omega
    · rcases path_cases sep t with ht | ⟨q, m, hm, rfl⟩
      · rw [segments_name ht, segments_append, segments_name hn'] at hlen
        have hpos := List.length_pos_iff.mpr (@segments_ne_nil sep p)
        simp only [List.length_append, List.length_singleton] at hlen
        omega
      · unfold Alike at halike
        rw [segments_append, segments_append, segments_name hn', segments_name hm,
          List.map_append, List.map_append] at halike
        obtain ⟨hparents, hnames⟩ := List.append_inj' halike rfl
        have hname : fold n' = fold m := by simpa using hnames
        by_cases hpq : p = q
        · left
          refine ⟨hne, ?_, ?_⟩
          · rw [splitParent_append hn', splitParent_append hm, hpq]
          · rw [splitParent_append hn', splitParent_append hm]
            exact hname
        · right
          have hlt : p.length < n := by
            rw [← hn]
            simp
          rcases ih p.length hlt hparents hpq rfl with hparting | ⟨f, hf, g, hg, hparting⟩
          · exact ⟨p, (mem_above_append hn').mpr (Or.inl rfl), q,
              (mem_above_append hm).mpr (Or.inl rfl), hparting⟩
          · exact ⟨f, (mem_above_append hn').mpr (Or.inr hf), g,
              (mem_above_append hm).mpr (Or.inr hg), hparting⟩

end DeskLink.Lib
