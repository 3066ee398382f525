import Mathlib.Tactic

/-!
# `DeskLink.Lib.Line`: programs whose items stand in one line

Several programs put items into one line, each one item at a time. `own` is
the item that a program has under way. `InLine` says that the items of one
program stand in the line in the order in which the program made them. Items
may be dropped anywhere.

* `InLine.push`, `InLine.skip`, `InLine.start`, `InLine.mono`: what keeps the
  order.
* `InLine.pass`: an item may pass those of other programs.
-/

set_option autoImplicit false

namespace DeskLink.Lib

variable {α : Type*} [DecidableEq α]

/-- The items of `program` stand in the line `line ++ own` in their
order, each once. -/
def InLine (program line own : List α) : Prop :=
  (line.filter (· ∈ program) ++ own).Sublist program

section
variable {program line own ahead behind : List α} {p : α}

theorem InLine.mono {line' own' : List α} (h : InLine program line own)
    (hline : line'.Sublist line) (hown : own'.Sublist own) : InLine program line' own' :=
  ((hline.filter _).append hown).trans h

theorem InLine.mem (h : InLine program line [p]) : p ∈ program :=
  List.Sublist.mem (List.mem_append_right _ (List.mem_singleton_self p)) h

/-- An item of another program changes nothing. -/
theorem InLine.skip (h : InLine program (ahead ++ behind) own) (hp : p ∉ program) :
    InLine program (ahead ++ p :: behind) own := by
  unfold InLine at h ⊢
  rw [List.filter_append, List.filter_cons_of_neg (by simpa using hp), ← List.filter_append]
  exact h

/-- An item goes past others, of which none is of its program. -/
theorem InLine.pass (h : InLine program (ahead ++ behind) [p])
    (hbehind : ∀ q ∈ behind, q ∉ program) : InLine program (ahead ++ p :: behind) [] := by
  have hmem := h.mem
  have hnone : behind.filter (· ∈ program) = [] := by
    rw [List.filter_eq_nil_iff]
    intro q hq
    simpa using hbehind q hq
  unfold InLine at h ⊢
  rw [List.filter_append, hnone, List.append_nil] at h
  rw [List.filter_append, List.filter_cons_of_pos (by simpa using hmem), hnone, List.append_nil]
  exact h

/-- A program has a new item. -/
theorem InLine.start (h : InLine program line []) (hline : p ∉ line) :
    InLine (program ++ [p]) line [p] := by
  have hsame : line.filter (· ∈ program ++ [p]) = line.filter (· ∈ program) := by
    refine List.filter_congr (fun q hq => ?_)
    have hne : q ≠ p := fun heq => hline (heq ▸ hq)
    simp [hne]
  unfold InLine at h ⊢
  rw [hsame]
  rw [List.append_nil] at h
  exact h.append (List.Sublist.refl _)

/-- What is under way is nowhere else in the line. -/
theorem InLine.not_mem (h : InLine program line [p]) (hnodup : program.Nodup) : p ∉ line := by
  intro hp
  have hall := List.Sublist.nodup h hnodup
  have hfilter : p ∈ line.filter (· ∈ program) :=
    List.mem_filter.mpr ⟨hp, decide_eq_true h.mem⟩
  exact List.disjoint_of_nodup_append hall hfilter (List.mem_singleton_self p)

end

/-! ### Lists that are put together -/

section
variable {β : Type*} {g : β → List α} {l : List β} {i : Nat} {a : β}

omit [DecidableEq α] in
/-- Where all parts but one are empty, that one is the whole. -/
theorem flatMap_alone (hi : l[i]? = some a)
    (hothers : ∀ j b, j ≠ i → l[j]? = some b → g b = []) : l.flatMap g = g a := by
  induction l generalizing i with
  | nil => simp at hi
  | cons b l ih =>
    rw [List.flatMap_cons]
    cases i with
    | zero =>
      obtain rfl : b = a := by simpa using hi
      have hrest : l.flatMap g = [] := by
        rw [List.flatMap_eq_nil_iff]
        intro c hc
        obtain ⟨j, hj⟩ := List.mem_iff_getElem?.mp hc
        exact hothers (j + 1) c (by omega) (by simpa using hj)
      rw [hrest, List.append_nil]
    | succ i =>
      have hfirst : g b = [] := hothers 0 b (by omega) rfl
      rw [hfirst, List.nil_append]
      refine ih (by simpa using hi) (fun j c hj hc => hothers (j + 1) c (by omega) ?_)
      simpa using hc

omit [DecidableEq α] in
/-- One part gets smaller. -/
theorem flatMap_set_sublist {b : β} (hi : l[i]? = some a) (h : (g b).Sublist (g a)) :
    ((l.set i b).flatMap g).Sublist (l.flatMap g) := by
  induction l generalizing i with
  | nil => simp at hi
  | cons c l ih =>
    cases i with
    | zero =>
      obtain rfl : c = a := by simpa using hi
      rw [List.set_cons_zero, List.flatMap_cons, List.flatMap_cons]
      exact h.append (List.Sublist.refl _)
    | succ i =>
      rw [List.set_cons_succ, List.flatMap_cons, List.flatMap_cons]
      exact (List.Sublist.refl _).append (ih (by simpa using hi))

end

end DeskLink.Lib
