import DeskLink.Remote.Input

/-!
# `DeskLink.Proofs.Remote.Input`: merged motion, and what calls hold down

* `mergeMotion_cases`: an action is merged into the last one where the two make one motion;
  `foldl_mergeMotion`: what is the same of the two is the same of a whole batch.
* `pressAll_typeText`: typed text holds down nothing that was not held before.
-/

set_option autoImplicit false

namespace DeskLink.Remote

variable {α : Type} {held more : Finset Held}

/-! ### Merging two actions -/

/-- The action that two motions of a kind are merged into. -/
def mergedMotion : PortalInputAction → PortalInputAction → Option PortalInputAction
  | .absoluteMotion _ _, .absoluteMotion nx ny => some (.absoluteMotion nx ny)
  | .relativeMotion dx dy, .relativeMotion ndx ndy =>
    some (.relativeMotion (dx + ndx) (dy + ndy))
  | .scroll dx dy, .scroll ndx ndy => some (.scroll (dx + ndx) (dy + ndy))
  | _, _ => none

/-- An action is merged into the last one where the two make one motion. -/
theorem mergeMotion_cases (merged : List PortalInputAction) (action : PortalInputAction) :
    (∃ before last motion, merged = before ++ [last] ∧ mergedMotion last action = some motion ∧
        mergeMotion merged action = before ++ [motion]) ∨
      (∀ last, merged.getLast? = some last → mergedMotion last action = none) ∧
        mergeMotion merged action = merged ++ [action] := by
  cases hlast : merged.getLast? with
  | none =>
    refine .inr ⟨nofun, ?_⟩
    unfold mergeMotion
    rw [hlast]
  | some last =>
    obtain ⟨before, rfl⟩ := List.getLast?_eq_some_iff.mp hlast
    cases hmotion : mergedMotion last action with
    | some motion =>
      refine .inl ⟨before, last, motion, rfl, hmotion, ?_⟩
      unfold mergeMotion
      rw [hlast, List.dropLast_concat]
      cases last <;> cases action <;> cases hmotion <;> rfl
    | none =>
      refine .inr ⟨fun other hother => ?_, ?_⟩
      · cases hother
        exact hmotion
      · unfold mergeMotion
        rw [hlast]
        cases last <;> cases action <;> first
          | rfl
          | cases hmotion

/-- What is the same of a merged action and of the two side by side is the same of all. -/
theorem foldl_mergeMotion {f : List PortalInputAction → α} (h : ∀ merged rest action,
      f (mergeMotion merged action ++ rest) = f ((merged ++ [action]) ++ rest))
    (actions merged : List PortalInputAction) :
    f (actions.foldl mergeMotion merged) = f (merged ++ actions) := by
  induction actions generalizing merged with
  | nil => rw [List.foldl_nil, List.append_nil]
  | cons action actions ih =>
    rw [List.foldl_cons, ih, h, List.append_assoc, List.singleton_append]

/-! ### What calls hold down -/

theorem pressAll_append (held : Finset Held) (first rest : List PortalCall) :
    pressAll held (first ++ rest) = pressAll (pressAll held first) rest :=
  List.foldl_append

theorem press_mono (h : held ⊆ more) (call : PortalCall) :
    PortalCall.press held call ⊆ PortalCall.press more call := by
  cases call with
  | motion => exact h
  | stroke key pressed =>
    cases pressed with
    | true => exact Finset.insert_subset_insert key h
    | false => exact Finset.erase_subset_erase key h

theorem pressAll_mono (h : held ⊆ more) (calls : List PortalCall) :
    pressAll held calls ⊆ pressAll more calls := by
  induction calls generalizing held more with
  | nil => exact h
  | cons call calls ih => exact ih (press_mono h call)

/-- Presses around calls that hold down nothing new, and their releases behind them, hold down
nothing new. -/
theorem pressAll_around {inner : List PortalCall}
    (hinner : ∀ held, pressAll held inner ⊆ held) (keys : List Held) (held : Finset Held) :
    pressAll held (keys.map (fun key => .stroke key true) ++ inner
      ++ keys.reverse.map (fun key => .stroke key false)) ⊆ held := by
  induction keys generalizing held with
  | nil =>
    rw [List.map_nil, List.reverse_nil, List.map_nil, List.nil_append, List.append_nil]
    exact hinner held
  | cons key keys ih =>
    have hsplit : (key :: keys).map (fun key => PortalCall.stroke key true) ++ inner
        ++ (key :: keys).reverse.map (fun key => PortalCall.stroke key false)
      = .stroke key true :: ((keys.map (fun key => PortalCall.stroke key true) ++ inner
          ++ keys.reverse.map (fun key => PortalCall.stroke key false))
        ++ [.stroke key false]) := by
      simp
    rw [hsplit]
    show pressAll (insert key held) _ ⊆ held
    rw [pressAll_append]
    intro other hother
    obtain ⟨hne, hin⟩ := Finset.mem_erase.mp hother
    exact (Finset.mem_insert.mp (ih (insert key held) hin)).resolve_left hne

/-- A key that is pressed and let go. -/
theorem pressAll_tap (key : Held) (held : Finset Held) :
    pressAll held [.stroke key true, .stroke key false] ⊆ held := by
  intro other hother
  obtain ⟨hne, hin⟩ := Finset.mem_erase.mp hother
  exact (Finset.mem_insert.mp hin).resolve_left hne

theorem pressAll_flatMap {items : List α} {calls : α → List PortalCall}
    (h : ∀ item ∈ items, ∀ held, pressAll held (calls item) ⊆ held) (held : Finset Held) :
    pressAll held (items.flatMap calls) ⊆ held := by
  induction items generalizing held with
  | nil => exact subset_rfl
  | cons item items ih =>
    rw [List.flatMap_cons, pressAll_append]
    exact (ih (fun other hother => h other (List.mem_cons_of_mem _ hother)) _).trans
      (h item List.mem_cons_self held)

/-- Typed text holds down nothing new. -/
theorem pressAll_typeText (text : String) (modifiers : Nat) (held : Finset Held) :
    pressAll held (typeText text modifiers) ⊆ held := by
  refine pressAll_flatMap (fun keysym _ held => ?_) held
  have h := pressAll_around (pressAll_tap (true, keysym))
    ((modifierKeysyms modifiers).map (fun modifier => (true, modifier))) held
  rw [← List.map_reverse, List.map_map, List.map_map] at h
  exact h

/-- What the actions of a list hold down, all applied. -/
def heldAfter (held : Finset Held) (actions : List PortalInputAction) : Finset Held :=
  pressAll held (actions.flatMap PortalInputAction.calls)

end DeskLink.Remote
