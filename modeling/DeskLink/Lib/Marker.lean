import Mathlib.Tactic

/-!
# `DeskLink.Lib.Marker`: a stream without a marker

`stripped mark s` is `s` with every occurrence of `mark` taken out, found
from left to right, and `marks` counts them. `Cut mark s shown n` is weaker:
`shown` is `s` with some `n` occurrences taken out, each of one piece.

The rules say what happens at the head of the stream (`stripped_mark`,
`stripped_skip`), and that a stream shorter than the marker has none.
-/

set_option autoImplicit false

namespace DeskLink.Lib

variable {α : Type}

section
variable [DecidableEq α] (mark : List α)

/-- `s` without the markers in it, after the first `skip` of `s`. -/
def strippedFrom : Nat → List α → List α
  | _, [] => []
  | skip + 1, _ :: s => strippedFrom skip s
  | 0, b :: s =>
    if mark.isPrefixOf (b :: s) then strippedFrom (mark.length - 1) s else b :: strippedFrom 0 s

/-- How many markers there are in `s` after the first `skip` of it. -/
def marksFrom : Nat → List α → Nat
  | _, [] => 0
  | skip + 1, _ :: s => marksFrom skip s
  | 0, b :: s =>
    if mark.isPrefixOf (b :: s) then marksFrom (mark.length - 1) s + 1 else marksFrom 0 s

def stripped (s : List α) : List α := strippedFrom mark 0 s

def marks (s : List α) : Nat := marksFrom mark 0 s

variable {mark} {s t : List α} {b : α}

theorem strippedFrom_eq (skip : Nat) (s : List α) :
    strippedFrom mark skip s = stripped mark (s.drop skip) := by
  induction skip generalizing s with
  | zero => rfl
  | succ skip ih =>
    cases s with
    | nil => simp [strippedFrom, stripped]
    | cons b s => exact ih s

theorem marksFrom_eq (skip : Nat) (s : List α) :
    marksFrom mark skip s = marks mark (s.drop skip) := by
  induction skip generalizing s with
  | zero => rfl
  | succ skip ih =>
    cases s with
    | nil => simp [marksFrom, marks]
    | cons b s => exact ih s

/-- A marker at the head goes. -/
theorem stripped_mark (hmark : mark ≠ []) (t : List α) :
    stripped mark (mark ++ t) = stripped mark t ∧ marks mark (mark ++ t) = marks mark t + 1 := by
  cases mark with
  | nil => exact absurd rfl hmark
  | cons b rest =>
    have hhead : (b :: rest).isPrefixOf (b :: (rest ++ t)) = true := by
      rw [List.isPrefixOf_iff_prefix]
      exact List.prefix_append (b :: rest) t
    have hdrop : (rest ++ t).drop ((b :: rest).length - 1) = t := List.drop_left
    constructor
    · show strippedFrom (b :: rest) 0 (b :: (rest ++ t)) = _
      rw [strippedFrom, if_pos hhead, strippedFrom_eq, hdrop]
    · show marksFrom (b :: rest) 0 (b :: (rest ++ t)) = _
      rw [marksFrom, if_pos hhead, marksFrom_eq, hdrop]

/-- Where no marker begins, the head stays. -/
theorem stripped_skip (h : ¬mark <+: b :: s) :
    stripped mark (b :: s) = b :: stripped mark s ∧ marks mark (b :: s) = marks mark s := by
  have hno : ¬mark.isPrefixOf (b :: s) = true := by
    rw [List.isPrefixOf_iff_prefix]
    exact h
  constructor
  · show strippedFrom mark 0 (b :: s) = _
    rw [strippedFrom, if_neg hno]
    rfl
  · show marksFrom mark 0 (b :: s) = _
    rw [marksFrom, if_neg hno]
    rfl

theorem stripped_of_short (h : s.length < mark.length) :
    stripped mark s = s ∧ marks mark s = 0 := by
  induction s with
  | nil => exact ⟨rfl, rfl⟩
  | cons b s ih =>
    have hno : ¬mark <+: b :: s := fun hpre => absurd hpre.length_le (Nat.not_le_of_lt h)
    obtain ⟨hstripped, hmarks⟩ := stripped_skip hno
    obtain ⟨hs, hn⟩ := ih (Nat.lt_trans (Nat.lt_succ_self _) h)
    rw [hstripped, hmarks, hs]
    exact ⟨rfl, hn⟩

end

variable {mark s t : List α}

/-- A marker of a longer stream that does not begin one of its beginning. -/
theorem not_prefix_append (h : ¬mark <+: s) (hshort : ¬(s.length < mark.length ∧ s <+: mark)) :
    ¬mark <+: s ++ t := by
  intro hpre
  by_cases hlength : mark.length ≤ s.length
  · exact h (List.prefix_of_prefix_length_le hpre (List.prefix_append s t) hlength)
  · have hlt : s.length < mark.length := Nat.lt_of_not_le hlength
    exact hshort ⟨hlt, List.prefix_of_prefix_length_le (List.prefix_append s t) hpre
      (Nat.le_of_lt hlt)⟩

/-- `shown` is the stream with `n` markers taken out. -/
inductive Cut (mark : List α) : List α → List α → Nat → Prop where
  | nil : Cut mark [] [] 0
  | byte (b : α) {s shown : List α} {n : Nat} (h : Cut mark s shown n) :
    Cut mark (b :: s) (b :: shown) n
  | query {s shown : List α} {n : Nat} (h : Cut mark s shown n) :
    Cut mark (mark ++ s) shown (n + 1)

theorem Cut.append {shown shown' : List α} {n n' : Nat} (h : Cut mark s shown n)
    (h' : Cut mark t shown' n') : Cut mark (s ++ t) (shown ++ shown') (n + n') := by
  induction h with
  | nil =>
    rw [Nat.zero_add]
    exact h'
  | byte b _ ih => exact .byte b ih
  | query _ ih =>
    rw [List.append_assoc, Nat.add_right_comm]
    exact .query ih

/-- Nothing is taken out. -/
theorem Cut.whole (s : List α) : Cut mark s s 0 := by
  induction s with
  | nil => exact .nil
  | cons b s ih => exact .byte b ih

end DeskLink.Lib
