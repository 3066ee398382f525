import DeskLink.Lib.Trace

/-!
# `DeskLink.Lib.Unwind`: two runs that look alike

`act : σ → ω → σ` is what one action does, and `watch s op` is what an
observer sees of `op` made in the state `s`. Some actions are `hidden`.
`Alongside` says that every action of a run meets a condition, read in the
state before it.

* `unwinding`: two runs with the same actions, hidden ones apart, end in
  states that look alike and show the observer the same, when a hidden
  action keeps the look of its state and any other action keeps the look
  of two states and shows the same in both.
-/

set_option autoImplicit false

namespace DeskLink.Lib

variable {σ ω β : Type*} {act : σ → ω → σ} {C : σ → ω → Prop} {ops : List ω} {s : σ}

/-- Every action of the run from `s` meets `C`. -/
def Alongside (act : σ → ω → σ) (C : σ → ω → Prop) : σ → List ω → Prop
  | _, [] => True
  | s, op :: ops => C s op ∧ Alongside act C (act s op) ops

/-- What the observer sees of the run from `s`. -/
def watched (act : σ → ω → σ) (watch : σ → ω → Option β) : σ → List ω → List β
  | _, [] => []
  | s, op :: ops => (watch s op).toList ++ watched act watch (act s op) ops

instance Alongside.decidable (act : σ → ω → σ) (C : σ → ω → Prop) [∀ s op, Decidable (C s op)] :
    ∀ (s : σ) (ops : List ω), Decidable (Alongside act C s ops)
  | _, [] => .isTrue trivial
  | s, op :: ops =>
    have := Alongside.decidable act C (act s op) ops
    inferInstanceAs (Decidable (C s op ∧ Alongside act C (act s op) ops))

theorem alongside_append {rest : List ω} : Alongside act C s (ops ++ rest) ↔
      Alongside act C s ops ∧ Alongside act C (applyAll act s ops) rest := by
  induction ops generalizing s with
  | nil => exact ⟨fun h => ⟨trivial, h⟩, fun h => h.2⟩
  | cons op ops ih =>
    rw [List.cons_append, applyAll_cons]
    show C s op ∧ Alongside act C (act s op) (ops ++ rest) ↔ _
    rw [ih]
    exact and_assoc.symm

/-- What holds in every state of a run holds before and after each of its
actions. -/
theorem Alongside.and_allAlong {P : σ → Prop} {Q : ω → Prop} (hC : Alongside act C s ops)
    (hP : AllAlong act P s ops) (hQ : ∀ op ∈ ops, Q op) :
    Alongside act (fun s op => Q op ∧ P s ∧ P (act s op) ∧ C s op) s ops := by
  induction ops generalizing s with
  | nil => trivial
  | cons op ops ih =>
    refine ⟨⟨hQ op (List.mem_cons_self ..), hP.1, hP.2.first, hC.1⟩, ih hC.2 hP.2 ?_⟩
    intro op' hop'
    exact hQ op' (List.mem_cons_of_mem _ hop')

/-- What every action that meets `C` keeps, a run of such actions keeps. -/
theorem Alongside.invariant {I : σ → Prop} (hkeeps : ∀ s op, I s → C s op → I (act s op))
    (hC : Alongside act C s ops) (hs : I s) : I (applyAll act s ops) := by
  induction ops generalizing s with
  | nil => exact hs
  | cons op ops ih => exact ih hC.2 (hkeeps s op hs hC.1)

/-- Two runs that differ in hidden actions only look alike. -/
theorem unwinding {R : σ → σ → Prop} {C : σ → ω → Prop} {hidden : ω → Bool}
    {watch : σ → ω → Option β}
    (hleft : ∀ s t op, R s t → C s op → hidden op = true → R (act s op) t)
    (hright : ∀ s t op, R s t → C t op → hidden op = true → R s (act t op))
    (hunseen : ∀ s op, hidden op = true → watch s op = none)
    (hboth : ∀ s t op, R s t → C s op → C t op → hidden op = false →
      R (act s op) (act t op) ∧ watch s op = watch t op) :
    ∀ {r₁ r₂ : List ω} {s t : σ}, R s t → Alongside act C s r₁ → Alongside act C t r₂ →
      r₁.filter (fun op => !hidden op) = r₂.filter (fun op => !hidden op) →
      R (applyAll act s r₁) (applyAll act t r₂) ∧
        watched act watch s r₁ = watched act watch t r₂ := by
  intro r₁
  induction r₁ with
  | nil =>
    -- Only hidden actions are left on the right.
    intro r₂
    induction r₂ with
    | nil =>
      intro s t hR _ _ _
      exact ⟨hR, rfl⟩
    | cons op r₂ ih =>
      intro s t hR h₁ h₂ hsame
      cases hop : hidden op with
      | false => simp [hop] at hsame
      | true =>
        have hrest : ([] : List ω).filter (fun op => !hidden op)
            = r₂.filter (fun op => !hidden op) := by
          rw [hsame, List.filter_cons_of_neg (by simp [hop])]
        obtain ⟨hR', hw⟩ := ih (hright s t op hR h₂.1 hop) h₁ h₂.2 hrest
        refine ⟨hR', ?_⟩
        rw [hw, watched, hunseen t op hop]
        rfl
  | cons op r₁ ih =>
    intro r₂
    cases hop : hidden op with
    | true =>
      intro s t hR h₁ h₂ hsame
      rw [List.filter_cons_of_neg (by simp [hop])] at hsame
      obtain ⟨hR', hw⟩ := ih (hleft s t op hR h₁.1 hop) h₁.2 h₂ hsame
      refine ⟨hR', ?_⟩
      rw [← hw, watched, hunseen s op hop]
      rfl
    | false =>
      -- The same action comes on the right, after hidden ones.
      induction r₂ with
      | nil =>
        intro s t _ _ _ hsame
        simp [hop] at hsame
      | cons op' r₂ ih₂ =>
        intro s t hR h₁ h₂ hsame
        cases hop' : hidden op' with
        | true =>
          rw [List.filter_cons_of_neg (l := r₂) (a := op') (by simp [hop'])] at hsame
          obtain ⟨hR', hw⟩ := ih₂ (hright s t op' hR h₂.1 hop') h₁ h₂.2 hsame
          refine ⟨hR', ?_⟩
          rw [hw, watched.eq_2 act watch t, hunseen t op' hop']
          rfl
        | false =>
          rw [List.filter_cons_of_pos (by simp [hop]), List.filter_cons_of_pos (by simp [hop'])]
            at hsame
          obtain ⟨rfl, hrest⟩ := List.cons.inj hsame
          obtain ⟨hR', hshown⟩ := hboth s t op hR h₁.1 h₂.1 hop
          obtain ⟨hR'', hw⟩ := ih hR' h₁.2 h₂.2 hrest
          refine ⟨hR'', ?_⟩
          rw [watched, watched, hshown, hw]

end DeskLink.Lib
