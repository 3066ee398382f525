import Mathlib.Tactic

/-!
# `DeskLink.Lib.KeyMap`: maps from strings, and sets of them

A `BTreeMap<String, V>` (or a `HashMap`, whose order nothing depends on)
is a `Std.ExtTreeMap`, walked in key order, and a `BTreeSet<String>` is a
`Std.ExtTreeSet`.
-/

set_option autoImplicit false

namespace DeskLink

/-- `BTreeMap<String, V>`. -/
abbrev KeyMap (V : Type) := Std.ExtTreeMap String V compare

variable {V : Type}

@[simp] theorem getElem?_keyInsert (m : KeyMap V) (k a : String) (v : V) :
    (m.insert k v)[a]? = if k = a then some v else m[a]? := by
  simp [Std.ExtTreeMap.getElem?_insert]

@[simp] theorem getElem?_keyErase (m : KeyMap V) (k a : String) :
    (m.erase k)[a]? = if k = a then none else m[a]? := by
  simp [Std.ExtTreeMap.getElem?_erase]

theorem not_contains_iff (m : KeyMap V) (k : String) :
    (!m.contains k) = true ↔ m[k]? = none := by
  rw [Std.ExtTreeMap.contains_eq_isSome_getElem?]
  cases m[k]? <;> simp

/-- Putting back what is there changes nothing. -/
theorem insert_of_getElem? (m : KeyMap V) {k : String} {v : V} (h : m[k]? = some v) :
    m.insert k v = m := by
  refine Std.ExtTreeMap.ext_getElem? (fun a => ?_)
  rw [getElem?_keyInsert]
  split
  · rename_i heq
    rw [← heq, h]
  · rfl

theorem erase_of_getElem? (m : KeyMap V) {k : String} (h : m[k]? = none) : m.erase k = m := by
  refine Std.ExtTreeMap.ext_getElem? (fun a => ?_)
  rw [getElem?_keyErase]
  split
  · rename_i heq
    rw [← heq, h]
  · rfl

/-- `BTreeSet<String>`. -/
abbrev KeySet := Std.ExtTreeSet String compare

theorem mem_keyInsert (s : KeySet) (k a : String) : a ∈ s.insert k ↔ k = a ∨ a ∈ s := by
  simp [Std.ExtTreeSet.mem_insert]

theorem mem_keyErase (s : KeySet) (k a : String) : a ∈ s.erase k ↔ k ≠ a ∧ a ∈ s := by
  simp [Std.ExtTreeSet.mem_erase]

theorem erase_of_not_mem (s : KeySet) {k : String} (h : k ∉ s) : s.erase k = s := by
  refine Std.ExtTreeSet.ext_mem (fun a => ?_)
  rw [mem_keyErase]
  exact ⟨And.right, fun ha => ⟨fun heq => h (heq ▸ ha), ha⟩⟩

end DeskLink
