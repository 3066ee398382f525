import Mathlib.Tactic

/-!
# `DeskLink.Lib.IdMap`: maps and sets of numbered things

A `HashMap` whose keys are names that a counter gives is a
`Std.ExtTreeMap` over `Nat`. `countValues` counts the keys with a value.
-/

set_option autoImplicit false

namespace DeskLink

/-- A map from numbers. -/
abbrev IdMap (V : Type) := Std.ExtTreeMap Nat V compare

/-- A set of numbers. -/
abbrev IdSet := Std.ExtTreeSet Nat compare

variable {V : Type}

@[simp] theorem getElem?_idInsert (m : IdMap V) (k a : Nat) (v : V) :
    (m.insert k v)[a]? = if k = a then some v else m[a]? := by
  simp [Std.ExtTreeMap.getElem?_insert]

@[simp] theorem getElem?_idErase (m : IdMap V) (k a : Nat) :
    (m.erase k)[a]? = if k = a then none else m[a]? := by
  simp [Std.ExtTreeMap.getElem?_erase]

@[simp] theorem getElem?_idFilter (m : IdMap V) (f : Nat → V → Bool) (a : Nat) :
    (m.filter f)[a]? = m[a]?.filter (f a) := by
  simp

theorem idMap_sorted (m : IdMap V) : m.toList.Pairwise (fun a b => a.1 < b.1) := by
  refine (@Std.ExtTreeMap.ordered_keys_toList Nat V compare m _).imp (fun {a b} hlt => ?_)
  exact Nat.compare_eq_lt.mp hlt

theorem mem_idMap_toList (m : IdMap V) (e : Nat × V) : e ∈ m.toList ↔ m[e.1]? = some e.2 :=
  Std.ExtTreeMap.mem_toList_iff_getElem?_eq_some

theorem nodup_ids_toList (m : IdMap V) : (m.toList.map Prod.fst).Nodup := by
  rw [List.Nodup, List.pairwise_map]
  exact (idMap_sorted m).imp Nat.ne_of_lt

/-- As many numbers as there are places: each place is taken. -/
theorem all_there {m : IdMap V} {n : Nat}
    (hrange : ∀ (k : Nat) (v : V), m[k]? = some v → 1 ≤ k ∧ k ≤ n) (hsize : m.size = n) {k : Nat}
    (h1 : 1 ≤ k) (hn : k ≤ n) : ∃ v, m[k]? = some v := by
  have hnodup := nodup_ids_toList m
  have hsub : m.toList.map Prod.fst ⊆ List.range' 1 n := by
    intro k hk
    obtain ⟨e, he, rfl⟩ := List.mem_map.mp hk
    have hin := hrange e.1 e.2 ((mem_idMap_toList m e).mp he)
    rw [List.mem_range'_1]
    omega
  have hlength : (List.range' 1 n).length ≤ (m.toList.map Prod.fst).length := by
    rw [List.length_range', List.length_map, Std.ExtTreeMap.length_toList, hsize]
  have hperm := (hnodup.subperm hsub).perm_of_length_le hlength
  have hk : k ∈ m.toList.map Prod.fst := hperm.mem_iff.mpr (by rw [List.mem_range'_1]; omega)
  obtain ⟨e, he, rfl⟩ := List.mem_map.mp hk
  exact ⟨e.2, (mem_idMap_toList m e).mp he⟩

/-- The numbers from 1 to `n`, each with its value. -/
theorem toList_of_filled {m : IdMap V} {n : Nat} {f : Nat → V}
    (hm : ∀ k : Nat, m[k]? = if 1 ≤ k ∧ k ≤ n then some (f k) else none) :
    m.toList = (List.range' 1 n).map (fun k => (k, f k)) := by
  have hsorted : ((List.range' 1 n).map (fun k => (k, f k))).Pairwise (fun a b => a.1 < b.1) := by
    rw [List.pairwise_map]
    exact List.pairwise_lt_range' 1
  have hmem : ∀ e, e ∈ m.toList ↔ e ∈ (List.range' 1 n).map (fun k => (k, f k)) := by
    rintro ⟨k, v⟩
    rw [mem_idMap_toList, hm, List.mem_map]
    constructor
    · intro hget
      split at hget
      · rename_i hin
        exact ⟨k, by rw [List.mem_range'_1]; omega, by rw [Option.some.inj hget]⟩
      · cases hget
    · rintro ⟨k', hk', heq⟩
      cases heq
      rw [List.mem_range'_1] at hk'
      rw [if_pos (by omega)]
  have hperm : m.toList.Perm ((List.range' 1 n).map (fun k => (k, f k))) :=
    (List.perm_ext_iff_of_nodup ((idMap_sorted m).imp (fun hlt heq => by
      rw [heq] at hlt; exact lt_irrefl _ hlt)) (hsorted.imp (fun hlt heq => by
      rw [heq] at hlt; exact lt_irrefl _ hlt))).mpr hmem
  exact hperm.eq_of_pairwise (fun a b _ _ hab hba => absurd hab (Nat.lt_asymm hba))
    (idMap_sorted m) hsorted

section Count

variable [DecidableEq V]

/-- How many keys have the value `v`. -/
def countValues (m : IdMap V) (v : V) : Nat := (m.filter (fun _ value => value = v)).size

theorem countValues_erase_le (m : IdMap V) (k : Nat) (v : V) :
    countValues (m.erase k) v ≤ countValues m v := by
  have heq : (m.erase k).filter (fun _ value => value = v)
      = (m.filter (fun _ value => value = v)).erase k := by
    apply Std.ExtTreeMap.ext_getElem?
    intro a
    by_cases h : k = a <;> simp [h]
  unfold countValues
  rw [heq]
  exact Std.ExtTreeMap.size_erase_le

theorem countValues_insert_self_le (m : IdMap V) (k : Nat) (v : V) :
    countValues (m.insert k v) v ≤ countValues m v + 1 := by
  have heq : (m.insert k v).filter (fun _ value => value = v)
      = (m.filter (fun _ value => value = v)).insert k v := by
    apply Std.ExtTreeMap.ext_getElem?
    intro a
    by_cases h : k = a <;> simp [h]
  unfold countValues
  rw [heq]
  exact Std.ExtTreeMap.size_insert_le

/-- Another value under a key that is not there counts for itself only. -/
theorem countValues_insert_ne (m : IdMap V) {k : Nat} {u v : V} (hne : u ≠ v)
    (hk : m[k]? = none) : countValues (m.insert k u) v = countValues m v := by
  have heq : (m.insert k u).filter (fun _ value => value = v)
      = m.filter (fun _ value => value = v) := by
    apply Std.ExtTreeMap.ext_getElem?
    intro a
    by_cases h : k = a
    · subst h
      simp [hne, hk]
    · simp [h]
  unfold countValues
  rw [heq]

end Count

end DeskLink
