import DeskLink.Lib.Text

/-!
# `DeskLink.Lib.Names`: names as characters, measured in bytes

A name is a list of characters, and `byteLen` is how many bytes of UTF-8 it
takes. `cut` is its longest beginning of so many bytes, which never ends
inside a character; `rsplitOnce` splits it at the last place of a mark.

* `cut_beginning`, `byteLen_cut`, `cut_longest` and `cut_of_le`.
* `rsplitOnce_eq_some` and `rsplitOnce_eq_none`.
-/

set_option autoImplicit false

namespace DeskLink.Lib

variable {max : Nat} {s : List Char} {mark : Char}

/-! ### Bytes -/

/-- The bytes of UTF-8 that characters take. -/
def byteLen (s : List Char) : Nat := (s.map Char.utf8Size).sum

@[simp] theorem byteLen_nil : byteLen [] = 0 := rfl

@[simp] theorem byteLen_cons (c : Char) (s : List Char) :
    byteLen (c :: s) = c.utf8Size + byteLen s := by
  simp [byteLen]

@[simp] theorem byteLen_append (s t : List Char) : byteLen (s ++ t) = byteLen s + byteLen t := by
  simp [byteLen]

theorem utf8ByteSize_eq (s : String) : s.utf8ByteSize = byteLen s.toList := by
  have hlist : ∀ l : List Char, (String.ofList l).utf8ByteSize = byteLen l := by
    intro l
    -- A character is pushed at the end.
    induction l using List.reverseRecOn with
    | nil => rfl
    | append_singleton l c ih =>
      have hpush : String.ofList (l ++ [c]) = (String.ofList l).push c := by
        apply String.toList_inj.mp
        simp
      rw [hpush, String.utf8ByteSize_push, ih]
      simp
  rw [← hlist, String.ofList_toList]

/-- Decimal digits take a byte each. -/
theorem byteLen_toDigits (n : Nat) : byteLen (Nat.toDigits 10 n) = (Nat.toDigits 10 n).length := by
  have hone : ∀ l : List Char, (∀ c ∈ l, c.isDigit = true) → byteLen l = l.length := by
    intro l
    induction l with
    | nil => exact fun _ => rfl
    | cons c l ih =>
      intro h
      have hdigit := h c List.mem_cons_self
      have hc : c.utf8Size = 1 := by
        rw [Char.utf8Size_eq_one_iff]
        simp only [Char.isDigit, Bool.and_eq_true, decide_eq_true_eq] at hdigit
        have hle : c.val ≤ 57 := hdigit.2
        exact UInt32.le_trans hle (by decide)
      rw [byteLen_cons, hc, ih (fun d hd => h d (List.mem_cons_of_mem c hd)), List.length_cons]
      omega
  exact hone _ (fun c hc => Nat.isDigit_of_mem_toDigits (by decide) (by decide) hc)

/-! ### Cutting -/

/-- The longest beginning of at most `max` bytes. -/
def cut (max : Nat) : List Char → List Char
  | [] => []
  | c :: s => if c.utf8Size ≤ max then c :: cut (max - c.utf8Size) s else []

theorem cut_beginning (max : Nat) (s : List Char) : cut max s <+: s := by
  induction s generalizing max with
  | nil => exact List.prefix_refl _
  | cons c s ih =>
    rw [cut]
    split
    · exact (List.prefix_cons_inj c).mpr (ih _)
    · exact List.nil_prefix

theorem byteLen_cut (max : Nat) (s : List Char) : byteLen (cut max s) ≤ max := by
  induction s generalizing max with
  | nil => exact Nat.zero_le _
  | cons c s ih =>
    rw [cut]
    split
    · have hrest := ih (max - c.utf8Size)
      rw [byteLen_cons]
      omega
    · exact Nat.zero_le _

/-- Every beginning of at most `max` bytes is a beginning of it. -/
theorem cut_longest {p : List Char} (hp : p <+: s) (hmax : byteLen p ≤ max) : p <+: cut max s := by
  induction s generalizing max p with
  | nil =>
    rw [List.prefix_nil.mp hp]
    exact List.nil_prefix
  | cons c s ih =>
    cases p with
    | nil => exact List.nil_prefix
    | cons d p =>
      obtain ⟨rfl, hrest⟩ := List.cons_prefix_cons.mp hp
      rw [byteLen_cons] at hmax
      rw [cut, if_pos (by omega)]
      exact (List.prefix_cons_inj d).mpr (ih hrest (by omega))

theorem cut_of_le (h : byteLen s ≤ max) : cut max s = s :=
  (cut_beginning max s).eq_of_length_le (cut_longest (List.prefix_refl s) h).length_le

/-! ### Splitting -/

/-- `rsplit_once`: what stands before the last `mark`, and what after it. -/
def rsplitOnce (mark : Char) : List Char → Option (List Char × List Char)
  | [] => none
  | c :: s =>
    match rsplitOnce mark s with
    | some (before, after) => some (c :: before, after)
    | none => if c = mark then some ([], s) else none

theorem rsplitOnce_eq_none : rsplitOnce mark s = none ↔ mark ∉ s := by
  induction s with
  | nil => simp [rsplitOnce]
  | cons c s ih =>
    rw [rsplitOnce]
    cases hs : rsplitOnce mark s with
    | some p =>
      have hmem : mark ∈ s := by
        by_contra hnot
        rw [ih.mpr hnot] at hs
        cases hs
      simp [hmem]
    | none =>
      have hnot := ih.mp hs
      by_cases hc : c = mark
      · simp [hc]
      · simp [hc, hnot, Ne.symm hc]

theorem rsplitOnce_eq_some {before after : List Char} :
    rsplitOnce mark s = some (before, after) ↔ s = before ++ mark :: after ∧ mark ∉ after := by
  have hsound : ∀ (s before after : List Char), rsplitOnce mark s = some (before, after) →
      s = before ++ mark :: after ∧ mark ∉ after := by
    intro s
    induction s with
    | nil => simp [rsplitOnce]
    | cons c s ih =>
      intro before after h
      rw [rsplitOnce] at h
      cases hs : rsplitOnce mark s with
      | some p =>
        obtain ⟨hsplit, hlast⟩ := ih p.1 p.2 hs
        rw [hs] at h
        cases h
        exact ⟨by rw [List.cons_append, ← hsplit], hlast⟩
      | none =>
        rw [hs] at h
        simp only at h
        split at h
        · rename_i hc
          cases h
          exact ⟨by rw [hc, List.nil_append], rsplitOnce_eq_none.mp hs⟩
        · cases h
  constructor
  · exact hsound s before after
  · rintro ⟨hsplit, hlast⟩
    cases hs : rsplitOnce mark s with
    | none =>
      have hnot := rsplitOnce_eq_none.mp hs
      exact absurd (hsplit ▸ List.mem_append_right before List.mem_cons_self) hnot
    | some p =>
      obtain ⟨hsplit', hlast'⟩ := hsound s p.1 p.2 hs
      obtain ⟨hbefore, hafter⟩ := append_cons_inj hlast' hlast (hsplit'.symm.trans hsplit)
      rw [← hbefore, ← hafter]

end DeskLink.Lib
