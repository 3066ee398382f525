import DeskLink.Terminal.Ring

/-!
# `DeskLink.Proofs.Terminal.Ring`: the ring holds the end of the output

`Holds ring shown` relates the ring to everything that was ever pushed:
its chunks are `shown` from `tail` on, and `head` is where `shown` ends.
`push` keeps the relation (`Holds.push`), and `since` then returns the
bytes of `shown` itself, or nothing (`Holds.since_some`, `Holds.since_none`).
`Window` says in addition how much is kept, and `ring_window` states the
whole for any pushes into a new ring.
-/

set_option autoImplicit false

namespace DeskLink.Terminal

theorem flatten_appendChunk (chunks : List (List UInt8)) (bytes : List UInt8) :
    (appendChunk chunks bytes).flatten = chunks.flatten ++ bytes := by
  induction chunks with
  | nil => simp [appendChunk]
  | cons first rest ih =>
    cases rest with
    | nil =>
      simp only [appendChunk]
      split <;> simp
    | cons second rest => simp [appendChunk, ih]

/-- Dropping the excess drops that many bytes, if there are so many. -/
theorem dropFront_eq (chunks : List (List UInt8)) (excess : Nat)
    (hexcess : excess ≤ chunks.flatten.length) :
    (dropFront chunks excess).1.flatten = chunks.flatten.drop excess ∧
      (dropFront chunks excess).2 = excess := by
  induction chunks generalizing excess with
  | nil =>
    simp only [List.flatten_nil, List.length_nil, Nat.le_zero] at hexcess
    subst hexcess
    exact ⟨rfl, rfl⟩
  | cons front rest ih =>
    simp only [dropFront]
    by_cases hzero : excess = 0
    · subst hzero
      simp
    · rw [if_neg hzero]
      by_cases hfront : front.length ≤ excess
      · rw [if_pos hfront]
        simp only [List.flatten_cons, List.length_append] at hexcess
        obtain ⟨hkept, hdropped⟩ := ih (excess - front.length) (by omega)
        refine ⟨?_, ?_⟩
        · show (dropFront rest _).1.flatten = _
          rw [hkept, List.flatten_cons, List.drop_append, List.drop_eq_nil_of_le hfront,
            List.nil_append]
        · show front.length + (dropFront rest _).2 = excess
          omega
      · rw [if_neg hfront]
        refine ⟨?_, rfl⟩
        -- The cut is inside `front`.
        show front.drop excess ++ rest.flatten = _
        rw [List.flatten_cons, List.drop_append_of_le_length (by omega)]

/-- Bytes taken chunk by chunk are a slice of the whole. -/
theorem takeFrom_eq (chunks : List (List UInt8)) (skip wanted : Nat) (hwanted : 0 < wanted) :
    takeFrom chunks skip wanted = (chunks.flatten.drop skip).take wanted := by
  induction chunks generalizing skip wanted with
  | nil => simp [takeFrom]
  | cons chunk rest ih =>
    simp only [takeFrom, List.flatten_cons]
    by_cases hskip : chunk.length ≤ skip
    · rw [if_pos hskip, ih _ _ hwanted, List.drop_append, List.drop_eq_nil_of_le hskip,
        List.nil_append]
    · rw [if_neg hskip, List.drop_append_of_le_length (by omega)]
      by_cases hfull : ((chunk.drop skip).take wanted).length = wanted
      · rw [if_pos hfull, List.take_append_of_le_length]
        rw [List.length_take] at hfull
        omega
      · rw [if_neg hfull]
        have hshort : (chunk.drop skip).length < wanted := by
          rw [List.length_take] at hfull
          omega
        rw [List.take_of_length_le (Nat.le_of_lt hshort), ih _ _ (by omega), List.drop_zero,
          List.take_append, List.take_of_length_le (Nat.le_of_lt hshort)]

/-- The ring keeps the end of `shown`, all the bytes pushed so far. -/
structure OutputRing.Holds (ring : OutputRing) (shown : List UInt8) : Prop where
  head_eq : ring.head = shown.length
  tail_le : ring.tail ≤ ring.head
  chunks_eq : ring.chunks.flatten = shown.drop ring.tail
  buffered_eq : ring.buffered = ring.head - ring.tail

variable {ring : OutputRing} {shown : List UInt8} {limit offset capacity : Nat}

theorem holds_new : OutputRing.Holds {} [] := ⟨rfl, le_rfl, rfl, rfl⟩

theorem OutputRing.Holds.push (h : ring.Holds shown) (bytes : List UInt8) :
    (ring.push bytes).Holds (shown ++ bytes) := by
  unfold OutputRing.push
  by_cases hbytes : bytes = []
  · rw [if_pos hbytes, hbytes, List.append_nil]
    exact h
  rw [if_neg hbytes]
  have hhead := h.head_eq
  have htail := h.tail_le
  have hbuffered := h.buffered_eq
  have hflat : (appendChunk ring.chunks bytes).flatten = (shown ++ bytes).drop ring.tail := by
    rw [flatten_appendChunk, h.chunks_eq, List.drop_append_of_le_length (by omega)]
  have hlength : (appendChunk ring.chunks bytes).flatten.length = ring.buffered + bytes.length := by
    rw [hflat, List.length_drop, List.length_append]
    omega
  obtain ⟨hkept, hdropped⟩ := dropFront_eq (appendChunk ring.chunks bytes)
    (ring.buffered + bytes.length - ring.capacity) (by omega)
  exact {
    head_eq := by
      show ring.head + bytes.length = _
      rw [List.length_append]
      omega
    tail_le := by
      show ring.tail + (dropFront _ _).2 ≤ ring.head + bytes.length
      omega
    chunks_eq := by
      show (dropFront _ _).1.flatten = _
      rw [hkept, hflat, List.drop_drop]
      show _ = (shown ++ bytes).drop (ring.tail + (dropFront _ _).2)
      rw [hdropped]
    buffered_eq := by
      show ring.buffered + bytes.length - (dropFront _ _).2
        = ring.head + bytes.length - (ring.tail + (dropFront _ _).2)
      omega }

/-- What `since` returns are the bytes of the output from the offset on. -/
theorem OutputRing.Holds.since_some (h : ring.Holds shown) {data : List UInt8}
    (hdata : ring.since offset limit = some data) :
    data = (shown.drop offset).take data.length ∧ offset ≤ shown.length ∧
      data.length = min (shown.length - offset) limit := by
  unfold OutputRing.since at hdata
  have hhead := h.head_eq
  by_cases hrange : ring.head < offset ∨ offset < ring.tail
  · rw [if_pos hrange] at hdata
    cases hdata
  · rw [if_neg hrange] at hdata
    by_cases hwanted : min (ring.head - offset) limit = 0
    · simp only [hwanted, if_true, Option.some.injEq] at hdata
      subst hdata
      refine ⟨by simp, by omega, ?_⟩
      rw [← hhead, hwanted]
      rfl
    · simp only [hwanted, if_false, Option.some.injEq] at hdata
      rw [takeFrom_eq _ _ _ (by omega), h.chunks_eq, List.drop_drop,
        show ring.tail + (offset - ring.tail) = offset by omega] at hdata
      have hlength : data.length = min (shown.length - offset) limit := by
        rw [← hdata, List.length_take, List.length_drop]
        omega
      refine ⟨?_, by omega, hlength⟩
      rw [hlength, ← hhead]
      exact hdata.symm

/-- Nothing is returned only for an offset outside of what is kept. -/
theorem OutputRing.Holds.since_none (h : ring.Holds shown)
    (hdata : ring.since offset limit = none) : shown.length < offset ∨ offset < ring.tail := by
  unfold OutputRing.since at hdata
  by_cases hrange : ring.head < offset ∨ offset < ring.tail
  · rw [h.head_eq] at hrange
    exact hrange
  · rw [if_neg hrange] at hdata
    dsimp only at hdata
    split at hdata <;> cases hdata

/-- What `since` returns is the stretch of the output that was asked for. -/
theorem OutputRing.Holds.since_eq (h : ring.Holds shown) (offset limit : Nat) :
    ring.since offset limit =
      if ring.tail ≤ offset ∧ offset ≤ ring.head then
        some ((shown.take (min ring.head (offset + limit))).drop offset)
      else none := by
  by_cases hrange : ring.tail ≤ offset ∧ offset ≤ ring.head
  · rw [if_pos hrange]
    cases hdata : ring.since offset limit with
    | none =>
      have hout := h.since_none hdata
      have hhead := h.head_eq
      omega
    | some data =>
      obtain ⟨heq, -, hlength⟩ := h.since_some hdata
      rw [heq, hlength, ← h.head_eq, List.drop_take]
      congr 3
      omega
  · rw [if_neg hrange]
    unfold OutputRing.since
    rw [if_pos (by omega)]

/-! ### A window on the whole stream -/

/-- The ring keeps the end of `shown`, and as much of it as fits. -/
structure OutputRing.Window (ring : OutputRing) (capacity : Nat) (shown : List UInt8) : Prop where
  holds : ring.Holds shown
  capacity_eq : ring.capacity = capacity
  tail_eq : ring.tail = ring.head - capacity

theorem window_new (capacity : Nat) : (OutputRing.new capacity).Window capacity [] where
  holds := ⟨rfl, le_rfl, rfl, rfl⟩
  capacity_eq := rfl
  tail_eq := (Nat.zero_sub capacity).symm

theorem OutputRing.Window.push (h : ring.Window capacity shown) (bytes : List UInt8) :
    (ring.push bytes).Window capacity (shown ++ bytes) := by
  have hholds := h.holds.push bytes
  have hcap := h.capacity_eq
  have htail := h.tail_eq
  unfold OutputRing.push at hholds ⊢
  by_cases hbytes : bytes = []
  · rw [if_pos hbytes] at hholds ⊢
    exact ⟨hholds, hcap, htail⟩
  rw [if_neg hbytes] at hholds ⊢
  refine ⟨hholds, hcap, ?_⟩
  show ring.tail + (dropFront _ _).2 = ring.head + bytes.length - capacity
  -- What is dropped is the excess over the capacity: all of it is there to drop.
  have hbuffered := h.holds.buffered_eq
  have hle := h.holds.tail_le
  have hhead := h.holds.head_eq
  have hlength : (appendChunk ring.chunks bytes).flatten.length
      = ring.buffered + bytes.length := by
    rw [flatten_appendChunk, h.holds.chunks_eq, List.length_append, List.length_drop]
    omega
  have hdropped := (dropFront_eq (appendChunk ring.chunks bytes)
    (ring.buffered + bytes.length - ring.capacity) (by omega)).2
  rw [hdropped]
  omega

/-- The ring after `writes`. -/
def OutputRing.pushes (ring : OutputRing) (writes : List (List UInt8)) : OutputRing :=
  writes.foldl OutputRing.push ring

theorem OutputRing.Window.pushes (h : ring.Window capacity shown) (writes : List (List UInt8)) :
    (ring.pushes writes).Window capacity (shown ++ writes.flatten) := by
  induction writes generalizing ring shown with
  | nil =>
    rw [List.flatten_nil, List.append_nil]
    exact h
  | cons bytes writes ih =>
    rw [List.flatten_cons, ← List.append_assoc]
    exact ih (h.push bytes)

/-- The ring is a window on all the bytes ever pushed: the offsets count
them, the chunks are the end of them, and `since` returns them. -/
theorem ring_window (capacity : Nat) (writes : List (List UInt8)) :
    let ring := (OutputRing.new capacity).pushes writes
    let stream := writes.flatten
    ring.head = stream.length ∧
      ring.tail = max 0 (ring.head - capacity) ∧
      ring.chunks.flatten = (stream.take ring.head).drop ring.tail ∧
      ∀ offset limit : Nat, ring.since offset limit =
        if ring.tail ≤ offset ∧ offset ≤ ring.head then
          some ((stream.take (min ring.head (offset + limit))).drop offset)
        else none := by
  intro ring stream
  have hwindow : ring.Window capacity ([] ++ stream) := (window_new capacity).pushes writes
  rw [List.nil_append] at hwindow
  have hholds := hwindow.holds
  refine ⟨hholds.head_eq, ?_, ?_, hholds.since_eq⟩
  · rw [Nat.zero_max]
    exact hwindow.tail_eq
  · rw [hholds.chunks_eq, hholds.head_eq, List.take_length]

end DeskLink.Terminal
