import DeskLink.Lib.KeyMap

/-!
# `DeskLink.Lib.Counted`: counting the values of a map

`countWhere m p` is how many keys of `m` have a value that `p` picks:
`m.values().filter(p).count()`. A new key adds one or none, and what takes
keys away takes no more than their share.
-/

set_option autoImplicit false

namespace DeskLink

variable {V : Type}

theorem getElem?_keyFilter (m : KeyMap V) (f : String → V → Bool) (a : String) :
    (m.filter f)[a]? = m[a]?.filter (f a) := by simp

theorem keyFilter_eq_some {m : KeyMap V} {f : String → V → Bool} {k : String} {v : V} :
    (m.filter f)[k]? = some v ↔ m[k]? = some v ∧ f k v = true := by
  rw [getElem?_keyFilter]
  cases m[k]? with
  | none => simp
  | some u => grind

theorem mem_toList_iff (m : KeyMap V) (e : String × V) : e ∈ m.toList ↔ m[e.1]? = some e.2 :=
  Std.ExtTreeMap.mem_toList_iff_getElem?_eq_some

theorem nodup_keys_toList (m : KeyMap V) : (m.toList.map Prod.fst).Nodup := by
  rw [Std.ExtTreeMap.map_fst_toList_eq_keys]
  exact Std.ExtTreeMap.nodup_keys

/-- The map of entries with keys of their own. -/
theorem getElem?_ofList {l : List (String × V)} (hnodup : (l.map Prod.fst).Nodup) (k : String)
    (v : V) : (Std.ExtTreeMap.ofList l compare)[k]? = some v ↔ (k, v) ∈ l := by
  have hdistinct : l.Pairwise (fun a b => ¬compare a.1 b.1 = .eq) := by
    rw [List.Nodup, List.pairwise_map] at hnodup
    exact hnodup.imp (fun hne heq => hne (Std.LawfulEqCmp.eq_of_compare heq))
  constructor
  · intro hget
    have hkey : k ∈ l.map Prod.fst := by
      by_contra hout
      rw [Std.ExtTreeMap.getElem?_ofList_of_contains_eq_false (by simpa using hout)] at hget
      cases hget
    obtain ⟨e, he, rfl⟩ := List.mem_map.mp hkey
    rw [Std.ExtTreeMap.getElem?_ofList_of_mem Std.ReflCmp.compare_self hdistinct he] at hget
    rw [← Option.some.inj hget]
    exact he
  · exact Std.ExtTreeMap.getElem?_ofList_of_mem Std.ReflCmp.compare_self hdistinct

/-- A fold over the entries of a map, each of which touches its own key only: a key that is
not there keeps its value, and any other has what its own entry makes of it. -/
theorem foldl_entries {W : Type} {act : KeyMap W → String × V → KeyMap W} {k : String}
    (hother : ∀ t item, item.1 ≠ k → (act t item)[k]? = t[k]?) (m : KeyMap V) (t : KeyMap W) :
    match m[k]? with
    | none => (m.toList.foldl act t)[k]? = t[k]?
    | some v => ∃ t' : KeyMap W, t'[k]? = t[k]? ∧
        (m.toList.foldl act t)[k]? = (act t' (k, v))[k]? := by
  have hskip : ∀ (items : List (String × V)) (t : KeyMap W), k ∉ items.map Prod.fst →
      (items.foldl act t)[k]? = t[k]? := by
    intro items
    induction items with
    | nil => exact fun t _ => rfl
    | cons item items ih =>
      intro t hnot
      rw [List.map_cons, List.mem_cons, not_or] at hnot
      rw [List.foldl_cons, ih _ hnot.2, hother t item (Ne.symm hnot.1)]
  cases hget : m[k]? with
  | none =>
    apply hskip
    intro hmem
    obtain ⟨item, hitem, rfl⟩ := List.mem_map.mp hmem
    rw [(mem_toList_iff m item).mp hitem] at hget
    cases hget
  | some v =>
    obtain ⟨before, after, hsplit⟩ := List.append_of_mem ((mem_toList_iff m (k, v)).mpr hget)
    have hkeys := nodup_keys_toList m
    rw [hsplit, List.map_append, List.map_cons, List.nodup_append, List.nodup_cons] at hkeys
    refine ⟨before.foldl act t, hskip before t ?_, ?_⟩
    · exact fun hmem => hkeys.2.2 k hmem k List.mem_cons_self rfl
    · rw [hsplit, List.foldl_append, List.foldl_cons, hskip after _ hkeys.2.1.1]

/-- How many keys have a value that `p` picks. -/
def countWhere (m : KeyMap V) (p : V → Bool) : Nat := (m.filter (fun _ v => p v)).size

variable {m : KeyMap V} {p : V → Bool} {k : String} {v : V}

theorem countWhere_eq_zero (h : ∀ (k : String) (v : V), m[k]? = some v → p v = false) : countWhere m p = 0 := by
  have hempty : m.filter (fun _ v => p v) = ∅ := by
    apply Std.ExtTreeMap.ext_getElem?
    intro a
    rw [getElem?_keyFilter]
    cases hget : m[a]? with
    | none => simp
    | some v => simp [h a v hget]
  unfold countWhere
  rw [hempty]
  rfl

/-- A new key whose value `p` picks counts for one. -/
theorem countWhere_insert (hk : m[k]? = none) (hp : p v = true) :
    countWhere (m.insert k v) p = countWhere m p + 1 := by
  have heq : (m.insert k v).filter (fun _ v => p v) = (m.filter (fun _ v => p v)).insert k v := by
    apply Std.ExtTreeMap.ext_getElem?
    intro a
    by_cases h : k = a <;> simp [h, hp]
  have hfresh : (m.filter (fun _ v => p v))[k]? = none := by simp [hk]
  unfold countWhere
  rw [heq, Std.ExtTreeMap.size_insert, Std.ExtTreeMap.contains_eq_isSome_getElem?, hfresh]
  rfl

theorem countWhere_insert_le : countWhere (m.insert k v) p ≤ countWhere m p + 1 := by
  have hle : countWhere (m.insert k v) p ≤ ((m.filter (fun _ v => p v)).insert k v).size := by
    have heq : (m.insert k v).filter (fun _ v => p v)
        = ((m.filter (fun _ v => p v)).insert k v).filter (fun _ v => p v) := by
      apply Std.ExtTreeMap.ext_getElem?
      intro a
      by_cases h : k = a
      · simp [h]
      · simp only [getElem?_keyFilter, getElem?_keyInsert, if_neg h]
        cases m[a]? with
        | none => simp
        | some u => grind
    unfold countWhere
    rw [heq]
    exact Std.ExtTreeMap.size_filter_le_size
  exact Nat.le_trans hle Std.ExtTreeMap.size_insert_le

/-- A value that `p` does not pick counts for nothing. -/
theorem countWhere_insert_other (hp : p v = false) :
    countWhere (m.insert k v) p ≤ countWhere m p := by
  have heq : (m.insert k v).filter (fun _ v => p v) = (m.filter (fun _ v => p v)).erase k := by
    apply Std.ExtTreeMap.ext_getElem?
    intro a
    by_cases h : k = a <;> simp [h, hp]
  unfold countWhere
  rw [heq]
  exact Std.ExtTreeMap.size_erase_le

theorem countWhere_erase_le : countWhere (m.erase k) p ≤ countWhere m p := by
  have heq : (m.erase k).filter (fun _ v => p v) = (m.filter (fun _ v => p v)).erase k := by
    apply Std.ExtTreeMap.ext_getElem?
    intro a
    by_cases h : k = a <;> simp [h]
  unfold countWhere
  rw [heq]
  exact Std.ExtTreeMap.size_erase_le

/-- A key whose value `p` picks takes one with it. -/
theorem countWhere_erase (hk : m[k]? = some v) (hp : p v = true) :
    countWhere (m.erase k) p + 1 = countWhere m p := by
  have hback : (m.erase k).insert k v = m := by
    apply Std.ExtTreeMap.ext_getElem?
    intro a
    by_cases h : k = a
    · subst h
      simp [hk]
    · simp [h]
  have hfresh : (m.erase k)[k]? = none := by simp
  rw [← countWhere_insert hfresh hp, hback]

theorem countWhere_true (t : KeyMap V) : countWhere t (fun _ => true) = t.size := by
  have heq : t.filter (fun _ _ => true) = t := by
    apply Std.ExtTreeMap.ext_getElem?
    intro a
    rw [getElem?_keyFilter]
    cases t[a]? <;> rfl
  unfold countWhere
  rw [heq]

theorem size_erase_of_some (hk : m[k]? = some v) : (m.erase k).size + 1 = m.size := by
  have herase := countWhere_erase (p := fun _ => true) hk rfl
  rwa [countWhere_true, countWhere_true] at herase

theorem size_insert_of_none (hk : m[k]? = none) : (m.insert k v).size = m.size + 1 := by
  rw [Std.ExtTreeMap.size_insert, Std.ExtTreeMap.contains_eq_isSome_getElem?, hk]
  rfl

theorem countWhere_filter_le (f : String → V → Bool) :
    countWhere (m.filter f) p ≤ countWhere m p := by
  have heq : (m.filter f).filter (fun _ v => p v) = (m.filter (fun _ v => p v)).filter f := by
    apply Std.ExtTreeMap.ext_getElem?
    intro a
    simp only [getElem?_keyFilter]
    cases m[a]? with
    | none => rfl
    | some u => grind
  unfold countWhere
  rw [heq]
  exact Std.ExtTreeMap.size_filter_le_size

end DeskLink
