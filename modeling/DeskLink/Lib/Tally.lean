import Mathlib.Tactic

/-!
# `DeskLink.Lib.Tally`: maps that count

A `HashMap` from keys to counters is a partial function, and a key that is
not there counts for nothing (`Tally.count`).

* `Counts m l`: under each key `m` counts how often it stands in `l`.
  `Counts.addAll` and `Counts.subAll` charge and refund several keys.
* `Tight m l`: and it keeps no key that counts for nothing. `Tight.addAll`
  and `Tight.dropAll`.
-/

set_option autoImplicit false

namespace DeskLink.Lib

variable {α : Type} [DecidableEq α]

/-- `HashMap<α, usize>`. -/
abbrev Tally (α : Type) := α → Option Nat

namespace Tally

/-- `get(&key).copied().unwrap_or(0)`. -/
def count (m : Tally α) (key : α) : Nat := (m key).getD 0

/-- `*entry(key).or_insert(0) += 1`. -/
def add (m : Tally α) (key : α) : Tally α := Function.update m key (some (m.count key + 1))

/-- One off the counter, if it is there: `saturating_sub(1)`. -/
def sub (m : Tally α) (key : α) : Tally α :=
  match m key with
  | none => m
  | some n => Function.update m key (some (n - 1))

/-- The same, and a counter at zero goes. -/
def drop (m : Tally α) (key : α) : Tally α :=
  match m key with
  | none => m
  | some n => Function.update m key (if n - 1 = 0 then none else some (n - 1))

@[simp] theorem count_add (m : Tally α) (key k : α) :
    (m.add key).count k = m.count k + if k = key then 1 else 0 := by
  unfold add count
  by_cases h : k = key
  · subst h
    simp
  · simp [h]

@[simp] theorem count_sub (m : Tally α) (key k : α) :
    (m.sub key).count k = m.count k - if k = key then 1 else 0 := by
  unfold sub
  cases hm : m key with
  | none =>
    by_cases h : k = key
    · subst h
      simp [count, hm]
    · simp [h]
  | some n =>
    by_cases h : k = key
    · subst h
      simp [count, hm]
    · simp [count, h]

end Tally

/-- `m` counts how often a key stands in `l`. -/
def Counts (m : Tally α) (l : List α) : Prop := ∀ k, m.count k = l.count k

/-- And a key that counts for nothing is not there. -/
def Tight (m : Tally α) (l : List α) : Prop :=
  ∀ k, m k = if l.count k = 0 then none else some (l.count k)

variable {m : Tally α} {l l' keys : List α} {key : α}

theorem Counts.perm (h : Counts m l) (hp : l.Perm l') : Counts m l' :=
  fun k => (h k).trans (hp.count_eq k)

theorem Tight.perm (h : Tight m l) (hp : l.Perm l') : Tight m l' := by
  intro k
  rw [h k, hp.count_eq k]

theorem Tight.counts (h : Tight m l) : Counts m l := by
  intro k
  unfold Tally.count
  rw [h k]
  split
  · rename_i hzero
    simp [hzero]
  · rfl

theorem Counts.add (h : Counts m l) (key : α) : Counts (m.add key) (key :: l) := by
  intro k
  rw [Tally.count_add, h k, List.count_cons]
  by_cases heq : k = key
  · simp [heq]
  · simp [heq, Ne.symm heq]

theorem Counts.sub (h : Counts m (key :: l)) : Counts (m.sub key) l := by
  intro k
  rw [Tally.count_sub, h k, List.count_cons]
  by_cases heq : k = key
  · simp [heq]
  · simp [heq, Ne.symm heq]

theorem Tight.add (h : Tight m l) (key : α) : Tight (m.add key) (key :: l) := by
  intro k
  unfold Tally.add
  by_cases heq : k = key
  · subst heq
    simp [h.counts k]
  · rw [Function.update_of_ne heq, h k, List.count_cons_of_ne (Ne.symm heq)]

theorem Tight.drop (h : Tight m (key :: l)) : Tight (m.drop key) l := by
  have hkey : m key = some (l.count key + 1) := by simp [h key]
  intro k
  unfold Tally.drop
  simp only [hkey, Nat.add_sub_cancel]
  by_cases heq : k = key
  · subst heq
    simp
  · rw [Function.update_of_ne heq, h k, List.count_cons_of_ne (Ne.symm heq)]

/-! ### Several keys at once -/

theorem Counts.addAll (h : Counts m l) (keys : List α) :
    Counts (keys.foldl Tally.add m) (keys ++ l) := by
  induction keys generalizing m l with
  | nil => exact h
  | cons key keys ih => exact (ih (h.add key)).perm List.perm_middle

theorem Counts.subAll (h : Counts m (keys ++ l)) : Counts (keys.foldl Tally.sub m) l := by
  induction keys generalizing m with
  | nil => exact h
  | cons key keys ih => exact ih (Counts.sub h)

theorem Tight.addAll (h : Tight m l) (keys : List α) :
    Tight (keys.foldl Tally.add m) (keys ++ l) := by
  induction keys generalizing m l with
  | nil => exact h
  | cons key keys ih => exact (ih (h.add key)).perm List.perm_middle

theorem Tight.dropAll (h : Tight m (keys ++ l)) : Tight (keys.foldl Tally.drop m) l := by
  induction keys generalizing m with
  | nil => exact h
  | cons key keys ih => exact ih (Tight.drop h)

theorem count_addAll (m : Tally α) (keys : List α) (k : α) :
    (keys.foldl Tally.add m).count k = m.count k + keys.count k := by
  induction keys generalizing m with
  | nil => simp
  | cons key keys ih =>
    rw [List.foldl_cons, ih, Tally.count_add, List.count_cons]
    by_cases h : k = key
    · simp [h]
      omega
    · simp [h, Ne.symm h]

theorem count_subAll (m : Tally α) (keys : List α) (k : α) :
    (keys.foldl Tally.sub m).count k = m.count k - keys.count k := by
  induction keys generalizing m with
  | nil => simp
  | cons key keys ih =>
    rw [List.foldl_cons, ih, Tally.count_sub, List.count_cons]
    by_cases h : k = key
    · simp [h]
      omega
    · simp [h, Ne.symm h]

theorem tight_nil : Tight (fun _ => none : Tally α) [] := fun _ => rfl

end DeskLink.Lib
