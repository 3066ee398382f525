import Mathlib.Tactic

/-!
# `DeskLink.Lib.Newest`: keeping the newest of what comes

A register that keeps what it has unless something with a greater stamp
comes: `newer` is one arrival, `newest` a list of them. What is kept is
described without the order by `IsNewest`. So the order matters only for
which of two equally stamped arrivals is kept, and it does matter then:

* `newest_stamp_perm`: the stamp kept does not depend on the order.
* `newest_perm`: the value kept does not depend on the order unless the
  arrivals are `Tied`.
* `newest_of_tops`: of tied arrivals the first is kept.
-/

set_option autoImplicit false

namespace DeskLink.Lib

variable {α ι : Type*} [LinearOrder ι] {stamp : α → ι} {x : α} {l l' : List α} {mine r : Option α}

/-- One arrival: it is kept when its stamp is greater. -/
def newer (stamp : α → ι) (mine : Option α) (x : α) : Option α :=
  if mine.any (fun m => stamp x ≤ stamp m) then mine else some x

/-- One arrival after another. -/
def newest (stamp : α → ι) (mine : Option α) (l : List α) : Option α :=
  l.foldl (newer stamp) mine

/-- `x` has the greatest stamp of `l`, greater than that of `mine`. -/
structure Tops (stamp : α → ι) (mine : Option α) (l : List α) (x : α) : Prop where
  mem : x ∈ l
  top : ∀ y ∈ l, stamp y ≤ stamp x
  above : ∀ m, mine = some m → stamp m < stamp x

/-- Two different arrivals have the greatest stamp. -/
def Tied (stamp : α → ι) (mine : Option α) (l : List α) : Prop :=
  ∃ x y, Tops stamp mine l x ∧ Tops stamp mine l y ∧ x ≠ y

/-- What can be kept: one of the arrivals with the greatest stamp, when it
is greater than that of `mine`, and else `mine`. -/
inductive IsNewest (stamp : α → ι) (mine : Option α) (l : List α) : Option α → Prop where
  | kept (h : ∀ y ∈ l, ∃ m, mine = some m ∧ stamp y ≤ stamp m) : IsNewest stamp mine l mine
  | took (x : α) (h : Tops stamp mine l x) : IsNewest stamp mine l (some x)

theorem newer_none (x : α) : newer stamp none x = some x := rfl

theorem newer_some_of_le {m : α} (h : stamp x ≤ stamp m) : newer stamp (some m) x = some m := by
  simp [newer, h]

theorem newer_some_of_lt {m : α} (h : stamp m < stamp x) : newer stamp (some m) x = some x := by
  simp [newer, h]

theorem isNewest_newest (mine : Option α) (l : List α) :
    IsNewest stamp mine l (newest stamp mine l) := by
  induction l generalizing mine with
  | nil => exact .kept (fun y hy => absurd hy (List.not_mem_nil))
  | cons x l ih =>
    show IsNewest stamp mine (x :: l) (newest stamp (newer stamp mine x) l)
    -- After the arrival either `mine` is still there, not older than `x`, or `x` is.
    have hstep : (∃ m, mine = some m ∧ stamp x ≤ stamp m ∧ newer stamp mine x = mine) ∨
        ((∀ m, mine = some m → stamp m < stamp x) ∧ newer stamp mine x = some x) := by
      cases mine with
      | none => exact .inr ⟨fun m hm => (by cases hm), newer_none x⟩
      | some m =>
        cases le_or_gt (stamp x) (stamp m) with
        | inl hle => exact .inl ⟨m, rfl, hle, newer_some_of_le hle⟩
        | inr hlt =>
          have habove : ∀ m', some m = some m' → stamp m' < stamp x := by
            intro m' hm'
            cases hm'
            exact hlt
          exact .inr ⟨habove, newer_some_of_lt hlt⟩
    cases hstep with
    | inl hkept =>
      obtain ⟨m, hm, hle, hnewer⟩ := hkept
      have hrest := ih mine
      rw [hnewer]
      generalize newest stamp mine l = r at hrest ⊢
      cases hrest with
      | kept h => exact .kept (List.forall_mem_cons.mpr ⟨⟨m, hm, hle⟩, h⟩)
      | took z h =>
        have hz : stamp x ≤ stamp z := le_trans hle (le_of_lt (h.above m hm))
        exact .took z ⟨List.mem_cons_of_mem x h.mem, List.forall_mem_cons.mpr ⟨hz, h.top⟩, h.above⟩
    | inr htook =>
      obtain ⟨habove, hnewer⟩ := htook
      have hrest := ih (some x)
      rw [hnewer]
      generalize newest stamp (some x) l = r at hrest ⊢
      cases hrest with
      | kept h =>
        have htop : ∀ y ∈ l, stamp y ≤ stamp x := by
          intro y hy
          obtain ⟨m, hm, hle⟩ := h y hy
          cases hm
          exact hle
        exact .took x ⟨List.mem_cons_self, List.forall_mem_cons.mpr ⟨le_rfl, htop⟩, habove⟩
      | took z h =>
        have hz : stamp x < stamp z := h.above x rfl
        have hall : ∀ m, mine = some m → stamp m < stamp z :=
          fun m hm => lt_trans (habove m hm) hz
        exact .took z
          ⟨List.mem_cons_of_mem x h.mem, List.forall_mem_cons.mpr ⟨le_of_lt hz, h.top⟩, hall⟩

/-- What can be kept does not depend on the order. -/
theorem IsNewest.perm (h : IsNewest stamp mine l r) (hl : l.Perm l') :
    IsNewest stamp mine l' r := by
  cases h with
  | kept h => exact .kept (fun y hy => h y (hl.mem_iff.mpr hy))
  | took x h =>
    exact .took x ⟨hl.mem_iff.mp h.mem, fun y hy => h.top y (hl.mem_iff.mpr hy), h.above⟩

/-- Two values that can be kept have one stamp. -/
theorem IsNewest.stamp_eq {r' : Option α} (h : IsNewest stamp mine l r)
    (h' : IsNewest stamp mine l r') : r.map stamp = r'.map stamp := by
  have hclash (z : α) (hz : Tops stamp mine l z)
      (hkept : ∀ y ∈ l, ∃ m, mine = some m ∧ stamp y ≤ stamp m) : False := by
    obtain ⟨m, hm, hle⟩ := hkept z hz.mem
    exact absurd (hz.above m hm) (not_lt.mpr hle)
  cases h with
  | kept h =>
    cases h' with
    | kept _ => rfl
    | took y hy => exact (hclash y hy h).elim
  | took x hx =>
    cases h' with
    | kept h' => exact (hclash x hx h').elim
    | took y hy =>
      have heq : stamp x = stamp y := le_antisymm (hy.top x hx.mem) (hx.top y hy.mem)
      simp [heq]

/-- Without a tie there is one value that can be kept. -/
theorem IsNewest.unique {r' : Option α} (h : IsNewest stamp mine l r)
    (h' : IsNewest stamp mine l r') (hl : ¬Tied stamp mine l) : r = r' := by
  have hstamp := h.stamp_eq h'
  cases h with
  | kept h =>
    cases h' with
    | kept _ => rfl
    | took y hy =>
      obtain ⟨m, hm, hle⟩ := h y hy.mem
      exact absurd (hy.above m hm) (not_lt.mpr hle)
  | took x hx =>
    cases h' with
    | kept h' =>
      obtain ⟨m, hm, hle⟩ := h' x hx.mem
      exact absurd (hx.above m hm) (not_lt.mpr hle)
    | took y hy =>
      by_contra hne
      exact hl ⟨x, y, hx, hy, fun heq => hne (congrArg some heq)⟩

theorem newest_stamp_perm (mine : Option α) (hl : l.Perm l') :
    (newest stamp mine l).map stamp = (newest stamp mine l').map stamp :=
  ((isNewest_newest mine l).perm hl).stamp_eq (isNewest_newest mine l')

theorem newest_perm (mine : Option α) (hl : l.Perm l') (htied : ¬Tied stamp mine l') :
    newest stamp mine l = newest stamp mine l' :=
  ((isNewest_newest mine l).perm hl).unique (isNewest_newest mine l') htied

/-- The first arrival with the greatest stamp is kept. -/
theorem newest_of_tops {rest : List α} (hx : Tops stamp mine l x) (hl : l.Perm (x :: rest)) :
    newest stamp mine (x :: rest) = some x := by
  have hfirst : newer stamp mine x = some x := by
    cases mine with
    | none => rfl
    | some m => exact newer_some_of_lt (hx.above m rfl)
  have hrest : ∀ y ∈ rest, stamp y ≤ stamp x :=
    fun y hy => hx.top y (hl.mem_iff.mpr (List.mem_cons_of_mem x hy))
  show newest stamp (newer stamp mine x) rest = some x
  rw [hfirst]
  clear hl hfirst
  induction rest with
  | nil => rfl
  | cons y rest ih =>
    obtain ⟨hy, hrest⟩ := List.forall_mem_cons.mp hrest
    show newest stamp (newer stamp (some x) y) rest = some x
    rw [newer_some_of_le hy]
    exact ih hrest

end DeskLink.Lib
