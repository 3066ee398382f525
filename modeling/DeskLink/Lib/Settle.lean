import Mathlib.Tactic

/-!
# `DeskLink.Lib.Settle`: writes that wait

A register has a value, and writes to it wait in the order in which they were asked for.
A write is `some` new value, or `none` where it leaves the register alone. `settle` is the
value when all of them have been made in that order.

`settle_take_out` is the rule for making one early: no older one may write another value.
-/

set_option autoImplicit false

namespace DeskLink.Lib

variable {β : Type*}

/-- The value after the writes, oldest first. -/
def settle (writes : List (Option β)) (now : β) : β :=
  writes.foldl (fun now write => write.getD now) now

@[simp] theorem settle_nil (now : β) : settle [] now = now := rfl

theorem settle_append (first rest : List (Option β)) (now : β) :
    settle (first ++ rest) now = settle rest (settle first now) := List.foldl_append

theorem settle_cons (write : Option β) (rest : List (Option β)) (now : β) :
    settle (write :: rest) now = settle rest (write.getD now) := rfl

theorem settle_snoc (first : List (Option β)) (write : Option β) (now : β) :
    settle (first ++ [write]) now = write.getD (settle first now) := by
  rw [settle_append, settle_cons, settle_nil]

/-- Writes of the value that is there. -/
theorem settle_same {writes : List (Option β)} {b : β}
    (h : ∀ write ∈ writes, write = none ∨ write = some b) : settle writes b = b := by
  induction writes with
  | nil => rfl
  | cons write writes ih =>
    rw [settle_cons]
    obtain rfl | rfl := h write List.mem_cons_self
    · exact ih (fun w hw => h w (List.mem_cons_of_mem _ hw))
    · exact ih (fun w hw => h w (List.mem_cons_of_mem _ hw))

/-- A write may be made before older ones that do not write otherwise. -/
theorem settle_take_out {before after : List (Option β)} {write : Option β} (now : β)
    (h : ∀ old ∈ before, old = none ∨ write = none ∨ old = write) :
    settle (before ++ after) (write.getD now) = settle (before ++ write :: after) now := by
  rw [settle_append, settle_append, settle_cons]
  cases write with
  | none => rfl
  | some b =>
    have hsame : ∀ old ∈ before, old = none ∨ old = some b := by
      intro old hold
      obtain hnone | hwrite | hsame := h old hold
      · exact .inl hnone
      · cases hwrite
      · exact .inr hsame
    rw [Option.getD_some, Option.getD_some, settle_same hsame]

/-- A register that lost its value has it back, or has none, after the writes. -/
theorem settle_of_lost {α : Type*} {writes : List (Option (Option α))} {now lost : Option α}
    (hlost : ∀ a, lost = some a → now = some a) :
    ∀ a, settle writes lost = some a → settle writes now = some a := by
  induction writes generalizing now lost with
  | nil => exact hlost
  | cons write writes ih =>
    rw [settle_cons, settle_cons]
    refine ih ?_
    cases write with
    | none => exact hlost
    | some b => exact fun a h => h

end DeskLink.Lib
