import Mathlib.Tactic

/-!
# `DeskLink.Lib.Trace`: a state changed write by write

`act : σ → ω → σ` is what one write does. A program that makes the
writes `ops` and may stop after any of them leaves one of the states
`applyAll act s (ops.take k)`; `AllAlong P s ops` says that `P` holds in
each of those. It splits over `++` (`allAlong_append`), so the writes of a
program are treated piece by piece.
-/

set_option autoImplicit false

namespace DeskLink.Lib

variable {σ ω : Type*} {act : σ → ω → σ} {P Q : σ → Prop} {ops rest : List ω} {s : σ}

/-- The state after all of `ops`. -/
def applyAll (act : σ → ω → σ) (s : σ) (ops : List ω) : σ := ops.foldl act s

@[simp] theorem applyAll_nil (s : σ) : applyAll act s [] = s := rfl

@[simp] theorem applyAll_cons (s : σ) (op : ω) (ops : List ω) :
    applyAll act s (op :: ops) = applyAll act (act s op) ops := rfl

theorem applyAll_append (s : σ) (ops rest : List ω) :
    applyAll act s (ops ++ rest) = applyAll act (applyAll act s ops) rest :=
  List.foldl_append

/-- `P` holds before the first of `ops` and after each. -/
def AllAlong (act : σ → ω → σ) (P : σ → Prop) : σ → List ω → Prop
  | s, [] => P s
  | s, op :: ops => P s ∧ AllAlong act P (act s op) ops

instance AllAlong.decidable (act : σ → ω → σ) (P : σ → Prop) [∀ s, Decidable (P s)] :
    ∀ (s : σ) (ops : List ω), Decidable (AllAlong act P s ops)
  | s, [] => inferInstanceAs (Decidable (P s))
  | s, op :: ops =>
    have := AllAlong.decidable act P (act s op) ops
    inferInstanceAs (Decidable (P s ∧ AllAlong act P (act s op) ops))

theorem AllAlong.first (h : AllAlong act P s ops) : P s := by
  cases ops with
  | nil => exact h
  | cons op ops => exact h.1

theorem AllAlong.last (h : AllAlong act P s ops) : P (applyAll act s ops) := by
  induction ops generalizing s with
  | nil => exact h
  | cons op ops ih => exact ih h.2

theorem allAlong_append : AllAlong act P s (ops ++ rest) ↔
      AllAlong act P s ops ∧ AllAlong act P (applyAll act s ops) rest := by
  induction ops generalizing s with
  | nil => exact ⟨fun h => ⟨h.first, h⟩, fun h => h.2⟩
  | cons op ops ih =>
    rw [List.cons_append, applyAll_cons]
    show P s ∧ AllAlong act P (act s op) (ops ++ rest) ↔ _
    rw [ih]
    exact and_assoc.symm

/-- Only the first of the writes are made. -/
theorem AllAlong.of_prefix (h : AllAlong act P s rest) (hfirst : ops <+: rest) :
    AllAlong act P s ops := by
  obtain ⟨more, rfl⟩ := hfirst
  exact (allAlong_append.mp h).1

/-- `AllAlong` is `P` in every state a stop can leave. -/
theorem allAlong_take (h : AllAlong act P s ops) (k : Nat) :
    P (applyAll act s (ops.take k)) := (h.of_prefix (List.take_prefix k ops)).last

theorem AllAlong.imp (h : AllAlong act P s ops) (himp : ∀ t, P t → Q t) : AllAlong act Q s ops := by
  induction ops generalizing s with
  | nil => exact himp s h
  | cons op ops ih => exact ⟨himp s h.1, ih h.2⟩

theorem AllAlong.and (h : AllAlong act P s ops) (h' : AllAlong act Q s ops) :
    AllAlong act (fun t => P t ∧ Q t) s ops := by
  induction ops generalizing s with
  | nil => exact ⟨h, h'⟩
  | cons op ops ih => exact ⟨⟨h.1, h'.1⟩, ih h.2 h'.2⟩

/-- Writes that each keep `P` keep it along. -/
theorem allAlong_of_forall (hs : P s) (hops : ∀ op ∈ ops, ∀ t, P t → P (act t op)) :
    AllAlong act P s ops := by
  induction ops generalizing s with
  | nil => exact hs
  | cons op ops ih =>
    refine ⟨hs, ih (hops op (List.mem_cons_self ..) s hs) ?_⟩
    intro op' hop'
    exact hops op' (List.mem_cons_of_mem _ hop')

end DeskLink.Lib
