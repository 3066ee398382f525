import DeskLink.Lib.Marker
import DeskLink.Terminal.SyncQuery

/-!
# `DeskLink.Proofs.Terminal.SyncQuery`: the filter does not see the cuts

`scan_spec` is one call of `filter`: what it shows and holds is the data
with the queries it counted taken out, and taking the queries out of the
data and anything after it is the same as out of what is held and that. So
however the output is cut into reads, `any_cut` shows the same.
-/

set_option autoImplicit false

namespace DeskLink.Terminal

open Lib

/-- What a scan of `data` gives. -/
structure Scanned.Of (scanned : Scanned) (data : List UInt8) : Prop where
  /-- Whatever comes after it. -/
  stripped_eq : ∀ more, stripped syncQuery (data ++ more)
    = scanned.out ++ stripped syncQuery (scanned.held ++ more)
  marks_eq : ∀ more, marks syncQuery (data ++ more)
    = scanned.found + marks syncQuery (scanned.held ++ more)
  /-- What is held is the end of the data. -/
  cut : ∃ done, data = done ++ scanned.held ∧ Cut syncQuery done scanned.out scanned.found
  short : scanned.held.length < syncQuery.length

theorem syncQuery_ne_nil : syncQuery ≠ [] := by decide

theorem scanned_nil : Scanned.Of ⟨[], 0, []⟩ [] :=
  ⟨fun _ => rfl, fun _ => (Nat.zero_add _).symm, ⟨[], rfl, .nil⟩, by decide⟩

/-- A byte that begins no query is shown. -/
theorem Scanned.Of.show_byte {next : Scanned} {b : UInt8} {rest : List UInt8} (h : next.Of rest)
    (hno : ∀ more, ¬syncQuery <+: b :: (rest ++ more)) :
    Scanned.Of { next with out := b :: next.out } (b :: rest) where
  stripped_eq more := by
    show stripped syncQuery (b :: (rest ++ more)) = _
    rw [(stripped_skip (hno more)).1, h.stripped_eq]
    rfl
  marks_eq more := by
    show marks syncQuery (b :: (rest ++ more)) = _
    rw [(stripped_skip (hno more)).2, h.marks_eq]
  cut := by
    obtain ⟨done, hdone, hcut⟩ := h.cut
    exact ⟨b :: done, congrArg (b :: ·) hdone, .byte b hcut⟩
  short := h.short

theorem scan_spec (fuel : Nat) (data : List UInt8) (hfuel : data.length ≤ fuel) :
    (SyncQueryFilter.scan fuel data).Of data := by
  induction fuel generalizing data with
  | zero =>
    have hnil : data = [] := List.length_eq_zero_iff.mp (Nat.le_zero.mp hfuel)
    subst hnil
    exact scanned_nil
  | succ fuel ih =>
    cases data with
    | nil => exact scanned_nil
    | cons b rest =>
      rw [List.length_cons] at hfuel
      have hrest := ih rest (by omega)
      simp only [SyncQueryFilter.scan]
      by_cases hescape : b ≠ 0x1b
      · rw [if_pos hescape]
        refine hrest.show_byte (fun more hpre => hescape ?_)
        exact (List.cons_prefix_cons.mp hpre).1.symm
      rw [if_neg hescape]
      by_cases hquery : syncQuery.isPrefixOf (b :: rest) = true
      · -- A whole query: it is counted and passed over.
        rw [if_pos hquery]
        obtain ⟨tail, htail⟩ := List.isPrefixOf_iff_prefix.mp hquery
        have hdrop : (b :: rest).drop syncQuery.length = tail := by
          rw [← htail]
          exact List.drop_left
        have hlength := congrArg List.length htail
        rw [List.length_append, List.length_cons] at hlength
        have hpos : 0 < syncQuery.length := by decide
        have hnext := ih tail (by omega)
        rw [hdrop, ← htail]
        exact {
          stripped_eq := fun more => by
            rw [List.append_assoc, (stripped_mark syncQuery_ne_nil _).1, hnext.stripped_eq]
          marks_eq := fun more => by
            rw [List.append_assoc, (stripped_mark syncQuery_ne_nil _).2, hnext.marks_eq]
            exact Nat.add_right_comm _ _ _
          cut := by
            obtain ⟨done, hdone, hcut⟩ := hnext.cut
            refine ⟨syncQuery ++ done, ?_, .query hcut⟩
            rw [List.append_assoc]
            exact congrArg (syncQuery ++ ·) hdone
          short := hnext.short }
      rw [if_neg hquery]
      by_cases hhead : ((b :: rest).length < syncQuery.length
          && (b :: rest).isPrefixOf syncQuery) = true
      · rw [if_pos hhead]
        have hshort := (Bool.and_eq_true_iff.mp hhead).1
        exact {
          stripped_eq := fun _ => rfl
          marks_eq := fun _ => (Nat.zero_add _).symm
          cut := ⟨[], rfl, .nil⟩
          short := of_decide_eq_true hshort }
      · rw [if_neg hhead]
        have hb : b = 0x1b := not_not.mp hescape
        subst hb
        -- Not a query, and not the beginning of one: no query begins here.
        refine hrest.show_byte (fun more => ?_)
        refine @not_prefix_append _ syncQuery (0x1b :: rest) more ?_ ?_
        · rw [← List.isPrefixOf_iff_prefix]
          exact hquery
        · rw [← List.isPrefixOf_iff_prefix]
          simpa using hhead

/-! ### Runs of the reader -/

/-- What the reader made of the output so far: it holds the end of it, and
showed the rest without the queries it counted. -/
structure Reader.Made (r : Reader) (stream : List UInt8) : Prop where
  cut : ∃ done, stream = done ++ r.queries.held ∧ Cut syncQuery done r.shown r.asked
  short : r.queries.held.length < syncQuery.length

theorem stream_snoc (events : List ReadEvent) (event : ReadEvent) :
    ReadEvent.stream (events ++ [event]) = ReadEvent.stream events ++ ReadEvent.stream [event] := by
  simp [ReadEvent.stream]

theorem Reader.Made.after {r : Reader} {stream : List UInt8} (h : r.Made stream)
    (event : ReadEvent) : (r.after event).Made (stream ++ ReadEvent.stream [event]) := by
  obtain ⟨done, hdone, hcut⟩ := h.cut
  cases event with
  | quiet =>
    rw [show ReadEvent.stream [.quiet] = [] from rfl, List.append_nil]
    simp only [Reader.after]
    split
    · -- What was held is shown, and nothing is held now.
      refine ⟨⟨stream, (List.append_nil _).symm, ?_⟩, (by decide : 0 < syncQuery.length)⟩
      show Cut syncQuery stream (r.shown ++ r.queries.held) r.asked
      rw [hdone]
      exact hcut.append (.whole _)
    · exact h
  | read bytes =>
    rw [show ReadEvent.stream [.read bytes] = bytes from List.append_nil _]
    have hscan := scan_spec (r.queries.held ++ bytes).length (r.queries.held ++ bytes)
      (Nat.le_refl _)
    obtain ⟨more, hmore, hcut'⟩ := hscan.cut
    refine ⟨⟨done ++ more, ?_, hcut.append hcut'⟩, hscan.short⟩
    show stream ++ bytes = _
    rw [hdone, List.append_assoc, List.append_assoc, hmore]
    rfl

theorem made_run (events : List ReadEvent) :
    (Reader.run {} events).Made (ReadEvent.stream events) := by
  induction events using List.reverseRecOn with
  | nil => exact ⟨⟨[], rfl, .nil⟩, by decide⟩
  | append_singleton events event ih =>
    rw [stream_snoc, Reader.run, List.foldl_append]
    exact ih.after event

/-- Without a release, what was shown and what is held are the whole output
without its queries. -/
theorem reads_run (reads : List (List UInt8)) (more : List UInt8) :
    stripped syncQuery (reads.flatten ++ more)
        = (Reader.run {} (reads.map .read)).shown
          ++ stripped syncQuery ((Reader.run {} (reads.map .read)).queries.held ++ more) ∧
      marks syncQuery (reads.flatten ++ more)
        = (Reader.run {} (reads.map .read)).asked
          + marks syncQuery ((Reader.run {} (reads.map .read)).queries.held ++ more) := by
  induction reads using List.reverseRecOn generalizing more with
  | nil => exact ⟨rfl, (Nat.zero_add _).symm⟩
  | append_singleton reads bytes ih =>
    rw [List.map_append, Reader.run, List.foldl_append]
    obtain ⟨hstripped, hmarks⟩ := ih (bytes ++ more)
    generalize hr : List.foldl Reader.after {} (reads.map .read) = r
    rw [Reader.run, hr] at hstripped hmarks
    have hscan := scan_spec (r.queries.held ++ bytes).length (r.queries.held ++ bytes)
      (Nat.le_refl _)
    rw [List.flatten_append, List.flatten_singleton, List.append_assoc]
    constructor
    · rw [hstripped, ← List.append_assoc r.queries.held, hscan.stripped_eq, ← List.append_assoc]
      rfl
    · rw [hmarks, ← List.append_assoc r.queries.held, hscan.marks_eq, ← Nat.add_assoc]
      rfl

/-- However the output is cut into reads, with no release in between, what is
shown is the output without every query in it, and all of them are counted.
With releases at any moments, what is shown is the output without the
queries that were counted, each of which was in it in one piece. -/
theorem any_cut :
    (∀ reads : List (List UInt8),
      (Reader.run {} (reads.map .read)).ended = stripped syncQuery reads.flatten ∧
        (Reader.run {} (reads.map .read)).asked = marks syncQuery reads.flatten) ∧
    ∀ events : List ReadEvent,
      Cut syncQuery (ReadEvent.stream events) (Reader.run {} events).ended
        (Reader.run {} events).asked := by
  constructor
  · intro reads
    obtain ⟨hstripped, hmarks⟩ := reads_run reads []
    rw [List.append_nil, List.append_nil] at hstripped hmarks
    -- What is still held is too short for a query.
    obtain ⟨hheld, hnone⟩ := stripped_of_short (made_run (reads.map .read)).short
    rw [hheld] at hstripped
    rw [hnone] at hmarks
    exact ⟨hstripped.symm, hmarks.symm⟩
  · intro events
    obtain ⟨done, hdone, hcut⟩ := (made_run events).cut
    rw [hdone]
    exact hcut.append (.whole _)

end DeskLink.Terminal
