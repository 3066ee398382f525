import Mathlib.Data.List.DropRight
import DeskLink.Session.Manager

/-!
# `DeskLink.Proofs.Session.Replay`: the replay cache is a sliding window

`lastDistinct n` is what a cache of capacity `n` has to refuse: the last `n`
distinct identifiers of those accepted. `Follows` relates a cache to the
identifiers it accepted since it was cleared, `evictOldest_eq` is the loop
that drops the oldest, and `replay_exact` the run. A capacity of zero is
counted as one (`replay_zero`).
-/

set_option autoImplicit false

namespace DeskLink.Session

variable {ids : List String} {n : Nat}

/-! ### The window -/

theorem length_rtake (n : Nat) (ids : List String) : (ids.rtake n).length = min n ids.length := by
  show (ids.drop (ids.length - n)).length = _
  rw [List.length_drop]
  omega

theorem rtake_of_length_le (h : ids.length ≤ n) : ids.rtake n = ids := by
  show ids.drop (ids.length - n) = ids
  rw [Nat.sub_eq_zero_of_le h, List.drop_zero]

/-- The last `n` distinct ones of `ids`, oldest first. -/
def lastDistinct (n : Nat) (ids : List String) : List String := ids.dedup.rtake n

/-- Where the last `n` are distinct, they are the last `n` distinct ones. -/
theorem lastDistinct_eq (h : (ids.rtake n).Nodup) : lastDistinct n ids = ids.rtake n := by
  have hsplit : ids = ids.take (ids.length - n) ++ ids.rtake n :=
    (List.take_append_drop (ids.length - n) ids).symm
  obtain ⟨front, hfront⟩ : ids.rtake n <:+ ids.dedup := by
    have hdedup : ids.dedup = ids.take (ids.length - n) ∪ ids.rtake n := by
      conv_lhs => rw [hsplit, List.dedup_append, h.dedup]
    rw [hdedup]
    exact List.suffix_union_right _ _
  by_cases hn : n ≤ ids.length
  · have hlength : (ids.rtake n).length = n := by
      show (ids.drop (ids.length - n)).length = n
      rw [List.length_drop]
      omega
    show ids.dedup.drop (ids.dedup.length - n) = ids.rtake n
    rw [← hfront, List.length_append, hlength, Nat.add_sub_cancel, List.drop_left]
  · -- All of them are among the last `n`.
    have hall : ids.rtake n = ids := rtake_of_length_le (by omega)
    rw [hall] at h ⊢
    show ids.dedup.rtake n = ids
    rw [h.dedup, hall]

/-! ### One call -/

/-- The loop keeps the last `capacity` of the queue, and in the set what it
keeps in the queue. -/
theorem evictOldest_eq (capacity : Nat) (seen order : List String) (horder : order.Nodup)
    (hseen : seen.Perm order) :
    (evictOldest capacity seen order).2 = order.rtake capacity ∧
      (evictOldest capacity seen order).1.Perm (order.rtake capacity) := by
  induction order generalizing seen with
  | nil =>
    rw [List.rtake_nil]
    exact ⟨rfl, hseen⟩
  | cons oldest rest ih =>
    simp only [evictOldest]
    by_cases hlong : capacity < (oldest :: rest).length
    · rw [if_pos hlong]
      rw [List.length_cons] at hlong
      have hout : oldest ∉ rest := (List.nodup_cons.mp horder).1
      have hfilter : (seen.filter (· ≠ oldest)).Perm rest := by
        have hrest : (oldest :: rest).filter (fun x => decide (x ≠ oldest)) = rest := by
          rw [List.filter_cons_of_neg (by simp), List.filter_eq_self]
          intro x hx
          exact decide_eq_true (fun heq => hout (heq ▸ hx))
        rw [← hrest]
        exact hseen.filter _
      have hshort : (oldest :: rest).rtake capacity = rest.rtake capacity := by
        show (oldest :: rest).drop ((oldest :: rest).length - capacity)
          = rest.drop (rest.length - capacity)
        rw [List.length_cons, Nat.succ_sub (by omega), List.drop_succ_cons]
      rw [hshort]
      exact ih _ (List.nodup_cons.mp horder).2 hfilter
    · rw [if_neg hlong]
      rw [rtake_of_length_le (by omega)]
      exact ⟨rfl, hseen⟩

/-- The cache holds the last `n` of the identifiers in `accepted`, which are
distinct, in its set and in its queue. -/
structure ReplayCache.Follows (cache : ReplayCache) (n : Nat) (accepted : List String) : Prop where
  capacity_eq : cache.capacity = n
  order_eq : cache.order = accepted.rtake n
  nodup : cache.order.Nodup
  seen_perm : cache.seen.Perm cache.order

variable {cache : ReplayCache} {n : Nat} {accepted : List String} {id : String}

theorem ReplayCache.Follows.mem_seen_iff (h : cache.Follows n accepted) (id : String) :
    id ∈ cache.seen ↔ id ∈ lastDistinct n accepted := by
  have hnodup := h.nodup
  rw [h.order_eq] at hnodup
  rw [h.seen_perm.mem_iff, h.order_eq, lastDistinct_eq hnodup]

theorem accept_of_mem (h : id ∈ cache.seen) : cache.accept id = (cache, false) :=
  if_pos h

theorem accept_snd (cache : ReplayCache) (id : String) :
    (cache.accept id).2 = false ↔ id ∈ cache.seen := by
  by_cases hseen : id ∈ cache.seen
  · simp [accept_of_mem hseen, hseen]
  · simp [ReplayCache.accept, hseen]

theorem ReplayCache.Follows.accept (h : cache.Follows n accepted) (hnew : id ∉ cache.seen) :
    (cache.accept id).1.Follows n (accepted ++ [id]) := by
  have hout : id ∉ cache.order := fun hmem => hnew (h.seen_perm.mem_iff.mpr hmem)
  have horder : (cache.order ++ [id]).Nodup :=
    List.nodup_append.mpr ⟨h.nodup, List.nodup_singleton id, fun x hx y hy heq =>
      hout (List.mem_singleton.mp hy ▸ heq ▸ hx)⟩
  have hseen : (id :: cache.seen).Perm (cache.order ++ [id]) :=
    (h.seen_perm.cons id).trans (List.perm_append_singleton id cache.order).symm
  obtain ⟨hqueue, hset⟩ := evictOldest_eq cache.capacity _ _ horder hseen
  -- The last `n` of the queue with the new one are the last `n` accepted.
  have hlast : (cache.order ++ [id]).rtake cache.capacity = (accepted ++ [id]).rtake n := by
    rw [h.capacity_eq, h.order_eq]
    show ((accepted.drop _) ++ [id]).drop _ = (accepted ++ [id]).drop _
    rw [← List.drop_append_of_le_length (by omega), List.drop_drop]
    congr 1
    rw [List.length_append, List.length_append, List.length_singleton, length_rtake]
    omega
  unfold ReplayCache.accept
  rw [if_neg hnew]
  exact {
    capacity_eq := h.capacity_eq
    order_eq := hqueue.trans hlast
    nodup := by
      show (evictOldest _ _ _).2.Nodup
      rw [hqueue]
      exact horder.sublist (List.drop_sublist _ _)
    seen_perm := by
      show (evictOldest _ _ _).1.Perm (evictOldest _ _ _).2
      rw [hqueue]
      exact hset }

/-! ### Runs -/

/-- A call of the cache. -/
inductive CacheCall where
  | accept (id : String)
  | clear
deriving DecidableEq, Repr

/-- A cache, and what it accepted since it was last cleared. -/
structure Recorded where
  cache : ReplayCache
  accepted : List String := []
deriving DecidableEq, Repr

def Recorded.after (r : Recorded) : CacheCall → Recorded
  | .accept id =>
    ⟨(r.cache.accept id).1, if (r.cache.accept id).2 then r.accepted ++ [id] else r.accepted⟩
  | .clear => ⟨r.cache.clear, []⟩

/-- A new cache after `calls`. -/
def recorded (capacity : Nat) (calls : List CacheCall) : Recorded :=
  calls.foldl Recorded.after ⟨.withCapacity capacity, []⟩

variable {r : Recorded}

theorem follows_after (h : r.cache.Follows n r.accepted) (call : CacheCall) :
    (r.after call).cache.Follows n (r.after call).accepted := by
  cases call with
  | accept id =>
    simp only [Recorded.after]
    by_cases hseen : id ∈ r.cache.seen
    · rw [accept_of_mem hseen]
      exact h
    · rw [(Bool.not_eq_false _).mp (fun hno => hseen ((accept_snd _ _).mp hno))]
      exact h.accept hseen
  | clear => exact ⟨h.capacity_eq, List.rtake_nil n ▸ rfl, List.nodup_nil, .refl _⟩

theorem follows_run (h : r.cache.Follows n r.accepted) (calls : List CacheCall) :
    (calls.foldl Recorded.after r).cache.Follows n (calls.foldl Recorded.after r).accepted := by
  induction calls generalizing r with
  | nil => exact h
  | cons call calls ih => exact ih (follows_after h call)

/-- After any calls, a cache made for `capacity` refuses exactly the last
`window` distinct identifiers accepted since it was cleared, a refusal leaves
it as it is, and its set and its queue hold the same identifiers, no more
than `window` and none twice. -/
def ReplayExact (capacity window : Nat) : Prop :=
  ∀ calls : List CacheCall,
    let r := recorded capacity calls
    (∀ id, (r.cache.accept id).2 = false ↔ id ∈ lastDistinct window r.accepted) ∧
    (∀ id, (r.cache.accept id).2 = false → (r.cache.accept id).1 = r.cache) ∧
    (∀ id, id ∈ r.cache.seen ↔ id ∈ r.cache.order) ∧
    r.cache.seen.Nodup ∧ r.cache.order.Nodup ∧
    r.cache.seen.length ≤ window ∧ r.cache.order.length ≤ window

/-- The cache refuses exactly the last distinct ids that it accepted. -/
theorem replay_exact (capacity : Nat) : ReplayExact capacity (max capacity 1) := by
  intro calls r
  have h : r.cache.Follows (max capacity 1) r.accepted :=
    follows_run ⟨rfl, (List.rtake_nil _).symm, List.nodup_nil, .refl _⟩ calls
  have hlength : r.cache.order.length ≤ max capacity 1 := by
    rw [h.order_eq, length_rtake]
    exact Nat.min_le_left _ _
  refine ⟨fun id => ?_, fun id hno => ?_, fun id => h.seen_perm.mem_iff,
    h.seen_perm.nodup_iff.mpr h.nodup, h.nodup, ?_, hlength⟩
  · rw [accept_snd, h.mem_seen_iff]
  · rw [accept_of_mem ((accept_snd _ _).mp hno)]
  · rw [h.seen_perm.length_eq]
    exact hlength

/-- A cache made for no identifiers keeps one. -/
theorem replay_zero : ¬∀ capacity, ReplayExact capacity capacity := by
  intro h
  have hrefused := ((h 0 [.accept "a"]).1 "a").mp (by decide)
  exact absurd hrefused (by decide)

end DeskLink.Session
