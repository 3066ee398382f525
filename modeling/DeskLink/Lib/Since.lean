import Mathlib.Tactic

/-!
# `DeskLink.Lib.Since`: what a log says since an entry

A log is a list whose newest entry is last. `Since first keep` holds of a log with an
entry that `first` picks, after which every entry is one that `keep` allows. `first`
also sees what came before the entry. `since_snoc` is the rule for one entry more, so
an invariant that says `Since` of the log so far is kept by looking at the last entry.
-/

set_option autoImplicit false

namespace DeskLink.Lib

variable {α : Type*}

/-- An entry that `first` picks, and after it only such as `keep` allows. -/
def Since (first : List α → α → Prop) (keep : α → Prop) (log : List α) : Prop :=
  ∃ past e next, log = past ++ e :: next ∧ first past e ∧ ∀ e' ∈ next, keep e'

variable {first first' : List α → α → Prop} {keep keep' : α → Prop} {log : List α} {e : α}

theorem not_since_nil : ¬Since first keep [] := by
  rintro ⟨past, e, next, heq, -⟩
  simp at heq

theorem since_snoc : Since first keep (log ++ [e]) ↔ first log e ∨ Since first keep log ∧ keep e := by
  constructor
  · rintro ⟨past, e', next, heq, hfirst, hkeep⟩
    induction next using List.reverseRecOn with
    | nil =>
      obtain ⟨rfl, hlast⟩ := List.append_inj' heq rfl
      cases hlast
      exact .inl hfirst
    | append_singleton next last _ =>
      rw [← List.cons_append, ← List.append_assoc] at heq
      obtain ⟨rfl, hlast⟩ := List.append_inj' heq rfl
      cases hlast
      exact .inr ⟨⟨past, e', next, rfl, hfirst, fun a ha => hkeep a (List.mem_append_left _ ha)⟩,
        hkeep e (by simp)⟩
  · rintro (hfirst | ⟨⟨past, e', next, rfl, hfirst, hkeep⟩, hlast⟩)
    · exact ⟨log, e, [], rfl, hfirst, fun a ha => absurd ha List.not_mem_nil⟩
    · refine ⟨past, e', next ++ [e], by simp, hfirst, fun a ha => ?_⟩
      obtain hold | hnew := List.mem_append.mp ha
      · exact hkeep a hold
      · rw [List.mem_singleton.mp hnew]
        exact hlast

theorem Since.start (h : first log e) : Since first keep (log ++ [e]) := since_snoc.mpr (.inl h)

theorem Since.go (h : Since first keep log) (he : keep e) : Since first keep (log ++ [e]) :=
  since_snoc.mpr (.inr ⟨h, he⟩)

end DeskLink.Lib
