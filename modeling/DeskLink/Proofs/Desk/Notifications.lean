import DeskLink.Desk.Notifications
import DeskLink.Lib.Run
import DeskLink.Lib.Text

/-!
# `DeskLink.Proofs.Desk.Notifications`: the phones mirror the open notifications

`Sound` is what every run keeps: no two notifications share an id, ids are numbered up to
`next`, and there are at most `kept` of them.

`Shows` says that a phone holds exactly the allowed notifications of the list. Each step
has one lemma about it. Three steps break it: an arrival that drops an allowed oldest
notification, an update that takes one out of the allowed apps, and a dismissal on another
phone. `Keeps` excludes them, and `phones_mirror` says that there are no others.
-/

set_option autoImplicit false

namespace DeskLink.DeskNotifications

open Lib (runFrom Always StepsMeet always_iff_stepsMeet)

variable {settings : AppSettings} {notes notes' after before : List DeskNote} {view : View}
variable {state state' : State} {note : DeskNote} {n : Nat}

/-- The ids of the open notifications. -/
def State.ids (state : State) : List String := state.notes.map DeskNote.id

/-- The id that the notification of that number gets. -/
def idOf (n : Nat) : String := idPrefix ++ Nat.repr n

theorem idOf_inj {m : Nat} (h : idOf m = idOf n) : m = n := by
  have hlist := congrArg String.toList h
  rw [idOf, idOf, String.toList_append, String.toList_append, Nat.toList_repr,
    Nat.toList_repr] at hlist
  exact Lib.toDigits_inj (List.append_cancel_left hlist)

structure Sound (state : State) : Prop where
  nodup : state.ids.Nodup
  numbered : ∀ id ∈ state.ids, ∃ n ≤ state.next, id = idOf n
  few : state.notes.length ≤ kept

/-- The view holds exactly the allowed notifications of the list. -/
def Shows (settings : AppSettings) (notes : List DeskNote) (view : View) : Prop :=
  ∀ id body, view id = some body ↔
    ∃ note ∈ notes, allowed settings note = true ∧ note.id = id ∧ note.body = body

/-! ### One notification more or less -/

theorem shows_congr (h : ∀ note, allowed settings note = true → (note ∈ notes ↔ note ∈ notes'))
    (hshows : Shows settings notes view) : Shows settings notes' view := by
  intro id body
  rw [hshows id body]
  constructor
  · rintro ⟨note, hmem, hallowed, hrest⟩
    exact ⟨note, (h note hallowed).mp hmem, hallowed, hrest⟩
  · rintro ⟨note, hmem, hallowed, hrest⟩
    exact ⟨note, (h note hallowed).mpr hmem, hallowed, hrest⟩

/-- A note whose id is no other's goes without a word: the view is still right just when
the note is not allowed. -/
theorem shows_without (hid : note.id ∉ (before ++ after).map DeskNote.id)
    (h : Shows settings (before ++ note :: after) view) :
    Shows settings (before ++ after) view ↔ allowed settings note = false := by
  constructor
  · intro hless
    by_contra hallowed
    rw [Bool.not_eq_false] at hallowed
    have hview := (h note.id note.body).mpr ⟨note, by simp, hallowed, rfl, rfl⟩
    obtain ⟨other, hother, -, heq, -⟩ := (hless note.id note.body).mp hview
    exact hid (heq ▸ List.mem_map_of_mem hother)
  · intro hnot
    refine shows_congr (fun other hother => ?_) h
    have hne : other ≠ note := by
      rintro rfl
      rw [hnot] at hother
      cases hother
    simp [hne]

/-- The phones are told that a note goes. -/
theorem shows_cancel (hid : note.id ∉ (before ++ after).map DeskNote.id)
    (h : Shows settings (before ++ note :: after) view) :
    Shows settings (before ++ after) (Function.update view note.id none) := by
  intro id body
  by_cases heq : id = note.id
  · rw [heq, Function.update_self]
    refine iff_of_false (by simp) ?_
    rintro ⟨other, hother, -, hsame, -⟩
    exact hid (hsame ▸ List.mem_map_of_mem hother)
  · rw [Function.update_of_ne heq, h id body]
    constructor
    · rintro ⟨other, hother, hallowed, rfl, hbody⟩
      have hne : other ≠ note := fun hsame => heq (by rw [hsame])
      exact ⟨other, by simpa [hne] using hother, hallowed, rfl, hbody⟩
    · rintro ⟨other, hother, hrest⟩
      refine ⟨other, ?_, hrest⟩
      rw [List.mem_append] at hother
      rw [List.mem_append, List.mem_cons]
      exact hother.imp_right .inr

/-- A note under a new id is forwarded. -/
theorem shows_forward {note : DeskNote} {before after : List DeskNote}
    (hid : note.id ∉ (before ++ after).map DeskNote.id)
    (h : Shows settings (before ++ after) view) :
    Shows settings (before ++ note :: after) ((forward settings note).foldl View.apply view) := by
  unfold forward
  cases hallowed : allowed settings note with
  | false =>
    refine shows_congr (fun other hother => ?_) h
    have hne : other ≠ note := by
      rintro rfl
      rw [hallowed] at hother
      cases hother
    simp [hne]
  | true =>
    intro id body
    show Function.update view note.id (some note.body) id = some body ↔ _
    by_cases heq : id = note.id
    · rw [heq, Function.update_self]
      constructor
      · intro hbody
        exact ⟨note, by simp, hallowed, rfl, Option.some.inj hbody⟩
      · rintro ⟨other, hother, -, hsame, rfl⟩
        have hnote : other = note := by
          by_contra hne
          refine hid (hsame ▸ List.mem_map_of_mem ?_)
          simpa [hne] using hother
        rw [hnote]
    · rw [Function.update_of_ne heq, h id body]
      constructor
      · rintro ⟨other, hother, hrest⟩
        refine ⟨other, ?_, hrest⟩
        rw [List.mem_append] at hother
        rw [List.mem_append, List.mem_cons]
        exact hother.imp_right .inr
      · rintro ⟨other, hother, hother', rfl, hbody⟩
        have hne : other ≠ note := fun hsame => heq (by rw [hsame])
        exact ⟨other, by simpa [hne] using hother, hother', rfl, hbody⟩

/-! ### Arrivals -/

/-- An update takes the place of the first note that it updates, or there is none. -/
theorem update_cases (note : DeskNote) (notes : List DeskNote) :
    (notes.find? (same · note) = none ∧ update note notes = none) ∨
      ∃ before known after, notes = before ++ known :: after ∧
        notes.find? (same · note) = some known ∧
        update note notes = some (before ++ { note with id := known.id } :: after,
          { note with id := known.id }) := by
  induction notes with
  | nil => exact .inl ⟨rfl, rfl⟩
  | cons first notes ih =>
    rw [update]
    by_cases hsame : same first note = true
    · rw [if_pos hsame, List.find?_cons_of_pos (p := (same · note)) hsame]
      exact .inr ⟨[], first, notes, rfl, rfl, rfl⟩
    · rw [if_neg hsame, List.find?_cons_of_neg (p := (same · note)) hsame]
      obtain ⟨hfind, hupdate⟩ | ⟨before, known, after, rfl, hfind, hupdate⟩ := ih
      · rw [hupdate]
        exact .inl ⟨hfind, rfl⟩
      · rw [hupdate]
        exact .inr ⟨first :: before, known, after, rfl, hfind, rfl⟩

/-- What an arrival does to the list. -/
theorem upsert_cases (state : State) (note : DeskNote) :
    (∃ before known after, state.notes = before ++ known :: after ∧
        state.notes.find? (same · note) = some known ∧
        (upsert state note).2 = { note with id := known.id } ∧
        (upsert state note).1.notes = before ++ { note with id := known.id } :: after ∧
        (upsert state note).1.next = state.next) ∨
      state.notes.find? (same · note) = none ∧
        (upsert state note).2 = { note with id := idOf (state.next + 1) } ∧
        (upsert state note).1.next = state.next + 1 ∧
        (state.notes.length < kept ∧ (upsert state note).1.notes
            = state.notes ++ [{ note with id := idOf (state.next + 1) }] ∨
          ∃ oldest rest, kept ≤ state.notes.length ∧ state.notes = oldest :: rest ∧
            (upsert state note).1.notes = rest ++ [{ note with id := idOf (state.next + 1) }]) := by
  obtain ⟨hfind, hupdate⟩ | ⟨before, known, after, hnotes, hfind, hupdate⟩ :=
    update_cases note state.notes
  · have hupsert : upsert state note =
        ({ state with
            seen := state.seen.insert note.appKey note.appName
            next := state.next + 1
            notes :=
              if kept < (state.notes ++ [{ note with id := idOf (state.next + 1) }]).length then
                (state.notes ++ [{ note with id := idOf (state.next + 1) }]).eraseIdx 0
              else state.notes ++ [{ note with id := idOf (state.next + 1) }] },
          { note with id := idOf (state.next + 1) }) := by
      simp only [upsert, hupdate]
      rfl
    rw [hupsert]
    refine .inr ⟨hfind, rfl, rfl, ?_⟩
    by_cases hfull : state.notes.length < kept
    · exact .inl ⟨hfull, if_neg (by simpa using hfull)⟩
    · rw [Nat.not_lt] at hfull
      cases hnotes : state.notes with
      | nil => rw [hnotes] at hfull; exact absurd hfull (by decide)
      | cons oldest rest =>
        rw [hnotes] at hfull
        exact .inr ⟨oldest, rest, hfull, rfl, if_pos (by simpa [Nat.lt_succ_iff] using hfull)⟩
  · have hupsert : upsert state note =
        ({ state with
            seen := state.seen.insert note.appKey note.appName
            notes := before ++ { note with id := known.id } :: after },
          { note with id := known.id }) := by
      simp only [upsert, hupdate]
    rw [hupsert]
    exact .inl ⟨before, known, after, hnotes, hfind, rfl, rfl, rfl⟩

/-- An arrival does not break the view: what it updates stays among the allowed, and what
it drops is not among them. -/
def Fits (settings : AppSettings) (notes : List DeskNote) (note : DeskNote) : Prop :=
  match notes.find? (same · note) with
  | some known => allowed settings known = true → allowed settings note = true
  | none => kept ≤ notes.length → ∀ oldest, notes.head? = some oldest →
      allowed settings oldest = false

theorem new_id (h : Sound state) : idOf (state.next + 1) ∉ state.ids := by
  intro hmem
  obtain ⟨n, hn, heq⟩ := h.numbered _ hmem
  have := idOf_inj heq
  omega

/-- Of a list without repeats, an entry's id is none of the others'. -/
theorem not_mem_others (h : ((before ++ note :: after).map DeskNote.id).Nodup) :
    note.id ∉ (before ++ after).map DeskNote.id ∧
      ((before ++ after).map DeskNote.id).Nodup := by
  rw [List.map_append, List.map_cons, List.nodup_middle, List.nodup_cons, ← List.map_append] at h
  exact h

theorem allowed_with_id (note : DeskNote) (id : String) :
    allowed settings { note with id := id } = allowed settings note := rfl

/-- An arrival keeps the view right just when it fits. -/
theorem upsert_shows (h : Sound state) (hshows : Shows settings state.notes view)
    (note : DeskNote) :
    Shows settings (upsert state note).1.notes
        ((forward settings (upsert state note).2).foldl View.apply view) ↔
      Fits settings state.notes note := by
  unfold Fits
  obtain ⟨before, known, after, hnotes, hfind, hstored, hafter, -⟩ |
    ⟨hfind, hstored, -, ⟨hfew, hafter⟩ | ⟨oldest, rest, hfull, hnotes, hafter⟩⟩ :=
    upsert_cases state note
  · rw [hfind, hstored, hafter]
    have hnodup := h.nodup
    rw [State.ids, hnotes] at hnodup
    obtain ⟨hid, -⟩ := not_mem_others hnodup
    rw [hnotes] at hshows
    cases hallowed : allowed settings note with
    | true =>
      refine iff_of_true ?_ (fun _ => rfl)
      -- The body takes the old one's place.
      have hcancelled := @shows_forward settings _ { note with id := known.id } _ _ hid
        (shows_cancel hid hshows)
      unfold forward at hcancelled ⊢
      rw [allowed_with_id, hallowed, if_pos rfl] at hcancelled ⊢
      simp only [List.foldl_cons, List.foldl_nil, bodyPacket, View.apply,
        Function.update_idem] at hcancelled ⊢
      exact hcancelled
    | false =>
      have hnone : forward settings { note with id := known.id } = [] := by
        rw [forward, allowed_with_id, hallowed]
        rfl
      rw [hnone, List.foldl_nil]
      have hsame : Shows settings (before ++ { note with id := known.id } :: after) view ↔
          Shows settings (before ++ after) view := by
        have hmem (other : DeskNote) (hother : allowed settings other = true) :
            other ∈ before ++ { note with id := known.id } :: after ↔ other ∈ before ++ after := by
          have hne : other ≠ { note with id := known.id } := by
            rintro rfl
            rw [allowed_with_id, hallowed] at hother
            cases hother
          simp [hne]
        exact ⟨shows_congr hmem, shows_congr (fun other hother => (hmem other hother).symm)⟩
      rw [hsame, shows_without hid hshows]
      simp
  · rw [hfind, hstored, hafter]
    refine iff_of_true ?_ (fun hfull => absurd hfew (Nat.not_lt.mpr hfull))
    refine shows_forward ?_ (by rwa [List.append_nil])
    rw [List.append_nil]
    exact new_id h
  · rw [hfind, hstored, hafter]
    have hnew : idOf (state.next + 1) ∉ (oldest :: rest).map DeskNote.id := by
      rw [← hnotes]
      exact new_id h
    have hall : Shows settings ([] ++ oldest :: (rest ++ [{ note with id := idOf (state.next + 1) }]))
        ((forward settings { note with id := idOf (state.next + 1) }).foldl View.apply view) := by
      refine @shows_forward settings view _ (oldest :: rest) _ ?_ (by rwa [List.append_nil, ← hnotes])
      rwa [List.append_nil]
    have hid : oldest.id ∉ ([] ++ (rest ++ [{ note with id := idOf (state.next + 1) }])).map
        DeskNote.id := by
      have hnodup := h.nodup
      rw [State.ids, hnotes, List.map_cons, List.nodup_cons] at hnodup
      simp only [List.nil_append, List.map_append, List.map_cons, List.map_nil, List.mem_append,
        List.mem_singleton, not_or]
      exact ⟨hnodup.1, fun heq => hnew (by rw [List.map_cons, ← heq]; exact List.mem_cons_self)⟩
    have hdrop := shows_without hid hall
    rw [List.nil_append] at hdrop
    rw [hdrop, hnotes]
    simp only [List.head?_cons, Option.some.injEq, forall_eq']
    rw [hnotes] at hfull
    exact ⟨fun hnot _ => hnot, fun hnot => hnot hfull⟩

/-- An arrival keeps the list sound. Its only new id is the next one. -/
theorem upsert_sound (h : Sound state) (note : DeskNote) :
    Sound (upsert state note).1 ∧ state.next ≤ (upsert state note).1.next ∧
      ∀ id ∈ (upsert state note).1.ids, id ∈ state.ids ∨ id = idOf (state.next + 1) := by
  obtain ⟨before, known, after, hnotes, -, -, hafter, hnext⟩ |
    ⟨-, -, hnext, hwhere⟩ := upsert_cases state note
  · have hids : (upsert state note).1.ids = state.ids := by
      rw [State.ids, State.ids, hafter, hnotes]
      simp only [List.map_append, List.map_cons]
    refine ⟨⟨?_, ?_, ?_⟩, hnext.ge, fun id hid => .inl (hids ▸ hid)⟩
    · rw [hids]
      exact h.nodup
    · rw [hids, hnext]
      exact h.numbered
    · have hfew := h.few
      rw [hnotes, List.length_append, List.length_cons] at hfew
      rw [hafter, List.length_append, List.length_cons]
      exact hfew
  · -- The rest is part of the list that was there.
    have hrest : ∃ rest : List DeskNote, rest.Sublist state.notes ∧ rest.length < kept ∧
        (upsert state note).1.notes = rest ++ [{ note with id := idOf (state.next + 1) }] := by
      obtain ⟨hfew, hafter⟩ | ⟨oldest, rest, -, hnotes, hafter⟩ := hwhere
      · exact ⟨state.notes, List.Sublist.refl _, hfew, hafter⟩
      · have hfew := h.few
        rw [hnotes, List.length_cons] at hfew
        exact ⟨rest, hnotes ▸ List.sublist_cons_self _ _, hfew, hafter⟩
    obtain ⟨rest, hsub, hfew, hafter⟩ := hrest
    have hids : (upsert state note).1.ids = rest.map DeskNote.id ++ [idOf (state.next + 1)] := by
      rw [State.ids, hafter, List.map_append, List.map_cons, List.map_nil]
    have hold : (rest.map DeskNote.id).Sublist state.ids := hsub.map _
    refine ⟨⟨?_, fun id hid => ?_, ?_⟩, by omega, fun id hid => ?_⟩
    · rw [hids, List.nodup_append]
      refine ⟨h.nodup.sublist hold, List.nodup_singleton _, fun a ha b hb heq => ?_⟩
      rw [List.mem_singleton.mp hb] at heq
      exact new_id h (heq ▸ hold.subset ha)
    · rw [hids, List.mem_append, List.mem_singleton] at hid
      rw [hnext]
      obtain hid | rfl := hid
      · obtain ⟨n, hn, heq⟩ := h.numbered id (hold.subset hid)
        exact ⟨n, Nat.le_succ_of_le hn, heq⟩
      · exact ⟨_, le_refl _, rfl⟩
    · rw [hafter, List.length_append, List.length_singleton]
      exact hfew
    · rw [hids, List.mem_append, List.mem_singleton] at hid
      exact hid.imp_left (fun hid => hold.subset hid)

/-! ### Replies -/

/-- What phones and ids depend on. -/
def DeskNote.core (note : DeskNote) : String × String × Body := (note.id, note.appKey, note.body)

theorem core_setServerId (id : String) (serverId : Nat) (notes : List DeskNote) :
    (setServerId id serverId notes).map DeskNote.core = notes.map DeskNote.core := by
  induction notes with
  | nil => rfl
  | cons note notes ih =>
    rw [setServerId]
    split
    · split <;> rfl
    · rw [List.map_cons, List.map_cons, ih]

theorem ids_of_core (h : notes'.map DeskNote.core = notes.map DeskNote.core) :
    notes'.map DeskNote.id = notes.map DeskNote.id := by
  have hid := congrArg (List.map Prod.fst) h
  rwa [List.map_map, List.map_map] at hid

theorem shows_of_core (h : notes'.map DeskNote.core = notes.map DeskNote.core) :
    Shows settings notes' view ↔ Shows settings notes view := by
  have hcore (l : List DeskNote) (id : String) (body : Body) :
      (∃ note ∈ l, allowed settings note = true ∧ note.id = id ∧ note.body = body) ↔
        ∃ core ∈ l.map DeskNote.core, (settings.forwardNotifications &&
          core.2.1 ∈ settings.forwardApps) = true ∧ core.1 = id ∧ core.2.2 = body := by
    constructor
    · rintro ⟨note, hnote, hrest⟩
      exact ⟨note.core, List.mem_map_of_mem hnote, hrest⟩
    · rintro ⟨core, hcore, hrest⟩
      obtain ⟨note, hnote, rfl⟩ := List.mem_map.mp hcore
      exact ⟨note, hnote, hrest⟩
  unfold Shows
  simp only [hcore, h]

theorem reply_cases (state : State) (call : String × Nat) (serverId : Nat) :
    (reply state call serverId).notes.map DeskNote.core = state.notes.map DeskNote.core ∧
      (reply state call serverId).next = state.next := by
  unfold reply
  split
  · exact ⟨rfl, rfl⟩
  · exact ⟨core_setServerId _ _ _, rfl⟩

/-! ### Removals -/

theorem foldl_cancel (gone : List DeskNote) (view : View) (id : String) :
    (gone.map (fun note => Packet.cancel note.id)).foldl View.apply view id
      = if id ∈ gone.map DeskNote.id then none else view id := by
  induction gone generalizing view with
  | nil => rfl
  | cons note gone ih =>
    rw [List.map_cons, List.foldl_cons, ih, List.map_cons]
    show (if _ then none else Function.update view note.id none id) = _
    by_cases hid : id = note.id
    · simp [hid]
    · rw [Function.update_of_ne hid]
      simp [hid]

/-- Two notes of a list without repeats that share an id are one. -/
theorem eq_of_id (h : (notes.map DeskNote.id).Nodup) {a b : DeskNote} (ha : a ∈ notes)
    (hb : b ∈ notes) (hid : a.id = b.id) : a = b :=
  List.inj_on_of_nodup_map h ha hb hid

theorem removed_shows (h : Sound state) (hshows : Shows settings state.notes view)
    (gone : Origin → Bool) :
    Shows settings (removed settings state gone).1.notes
      ((removed settings state gone).2.foldl View.apply view) := by
  intro id body
  unfold removed
  rw [foldl_cancel]
  split
  · rename_i hgone
    refine iff_of_false (by simp) ?_
    rintro ⟨other, hother, -, rfl, -⟩
    obtain ⟨note, hnote, hid⟩ := List.mem_map.mp hgone
    rw [List.mem_filter, List.mem_filter] at hnote
    rw [List.mem_filter] at hother
    rw [eq_of_id h.nodup hother.1 hnote.1.1 hid.symm, hnote.1.2] at hother
    exact absurd hother.2 (by simp)
  · rename_i hkept
    rw [hshows id body]
    constructor
    · rintro ⟨note, hnote, hallowed, rfl, hbody⟩
      refine ⟨note, List.mem_filter.mpr ⟨hnote, ?_⟩, hallowed, rfl, hbody⟩
      rw [Bool.not_eq_true', ← Bool.not_eq_true]
      intro hgone
      refine hkept (List.mem_map_of_mem ?_)
      rw [List.mem_filter, List.mem_filter]
      exact ⟨⟨hnote, hgone⟩, hallowed⟩
    · rintro ⟨note, hnote, hrest⟩
      exact ⟨note, (List.mem_filter.mp hnote).1, hrest⟩

/-- What is left of the list keeps it sound. -/
theorem Sound.sublist (h : Sound state) (hsub : state'.notes.Sublist state.notes)
    (hnext : state'.next = state.next) : Sound state' where
  nodup := h.nodup.sublist (hsub.map _)
  numbered id hid := by
    rw [hnext]
    exact h.numbered id ((hsub.map _).subset hid)
  few := hsub.length_le.trans h.few

/-- A dismissal takes the note of that id out, if there is one. -/
theorem closeFromPhone_cases (h : Sound state) (id : String) :
    id ∉ state.ids ∧ (closeFromPhone state id).1 = state ∨
      ∃ before note after, state.notes = before ++ note :: after ∧ note.id = id ∧
        (closeFromPhone state id).1 = { state with notes := before ++ after } := by
  unfold closeFromPhone
  by_cases hmem : id ∈ state.ids
  · obtain ⟨n, -, rfl⟩ := h.numbered id hmem
    have hstarts : idPrefix.toList.isPrefixOf (idOf n).toList = true := by
      rw [idOf, String.toList_append, List.isPrefixOf_iff_prefix]
      exact List.prefix_append _ _
    rw [hstarts, Bool.not_true, if_neg Bool.false_ne_true]
    obtain ⟨note, hnote, hid⟩ := List.mem_map.mp hmem
    have hfound : (state.notes.find? (fun note => note.id = idOf n)).isSome := by
      rw [List.find?_isSome]
      exact ⟨note, hnote, by simpa using hid⟩
    obtain ⟨found, hfound⟩ := Option.isSome_iff_exists.mp hfound
    obtain ⟨hid, before, after, hnotes, hbefore⟩ := List.find?_eq_some_iff_append.mp hfound
    rw [hfound]
    refine .inr ⟨before, found, after, hnotes, by simpa using hid, ?_⟩
    have herase : state.notes.eraseP (fun note => note.id = idOf n) = before ++ after := by
      rw [hnotes, List.eraseP_append_right _ (fun b hb => by simpa using hbefore b hb),
        List.eraseP_cons_of_pos (p := fun note : DeskNote => note.id = idOf n) hid]
    rw [herase]
  · refine .inl ⟨hmem, ?_⟩
    split
    · rfl
    · have hnone : state.notes.find? (fun note => note.id = id) = none := by
        rw [List.find?_eq_none]
        intro note hnote heq
        exact hmem (List.mem_map.mpr ⟨note, hnote, by simpa using heq⟩)
      rw [hnone]

/-! ### Snapshots -/

theorem foldl_bodies_other {id : String} (h : id ∉ notes.map DeskNote.id) :
    (notes.map (fun note => bodyPacket note true)).foldl View.apply view id = view id := by
  induction notes generalizing view with
  | nil => rfl
  | cons note notes ih =>
    rw [List.map_cons, List.mem_cons, not_or] at h
    rw [List.map_cons, List.foldl_cons, ih h.2]
    exact Function.update_of_ne h.1 _ _

theorem foldl_bodies_mem (hnodup : (notes.map DeskNote.id).Nodup) (h : note ∈ notes) :
    (notes.map (fun note => bodyPacket note true)).foldl View.apply view note.id
      = some note.body := by
  induction notes generalizing view with
  | nil => cases h
  | cons first notes ih =>
    rw [List.map_cons, List.nodup_cons] at hnodup
    rw [List.map_cons, List.foldl_cons]
    obtain rfl | h := List.mem_cons.mp h
    · rw [foldl_bodies_other hnodup.1]
      exact Function.update_self ..
    · exact ih hnodup.2 h

/-- After a snapshot the view is right, whatever it was. -/
theorem snapshot_shows (h : Sound state) (view : View) :
    Shows settings state.notes ((snapshotFor settings state).foldl View.apply view) := by
  intro id body
  have hnodup : ((state.notes.filter (allowed settings)).map DeskNote.id).Nodup :=
    h.nodup.sublist (List.filter_sublist.map _)
  unfold snapshotFor
  rw [List.foldl_cons]
  by_cases hmem : id ∈ (state.notes.filter (allowed settings)).map DeskNote.id
  · obtain ⟨note, hnote, rfl⟩ := List.mem_map.mp hmem
    rw [foldl_bodies_mem hnodup hnote, Option.some.injEq]
    have hboth := List.mem_filter.mp hnote
    constructor
    · intro hbody
      exact ⟨note, hboth.1, hboth.2, rfl, hbody⟩
    · rintro ⟨other, hother, -, hid, rfl⟩
      rw [eq_of_id h.nodup hother hboth.1 hid]
  · rw [foldl_bodies_other hmem]
    refine iff_of_false ?_ ?_
    · show (if id ∈ _ then view id else none) ≠ _
      rw [if_neg hmem]
      simp
    · rintro ⟨note, hnote, hallowed, rfl, -⟩
      exact hmem (List.mem_map_of_mem (List.mem_filter.mpr ⟨hnote, hallowed⟩))

/-! ### A step -/

/-- The notification that a message brings. -/
def arriving (server : Option String) : Message → Option DeskNote
  | .notify destination sender _ args now =>
    if toServer server destination then (fromNotify args sender now).map Prod.fst else none
  | .addNotification args nameOf now => fromGtk args nameOf now
  | .reply _ _ _ | .closed _ | .removeNotification _ _ => none

variable {Phone : Type} [DecidableEq Phone] {m m' : Mirror Phone} {op : MirrorStep Phone}
variable {ops : List (MirrorStep Phone)}

/-- The step keeps this phone's view right. -/
def Keeps (settings : AppSettings) (phone : Phone) (m : Mirror Phone) : MirrorStep Phone → Prop
  | .observe server message => ∀ note, arriving server message = some note →
      Fits settings m.desk.notes note
  | .dismiss by' id => by' ≠ phone → ∀ note ∈ m.desk.notes, note.id = id →
      allowed settings note = false
  | .snapshot _ => True

/-- A message brings a notification, removes some or answers a call. -/
theorem observe_cases (settings : AppSettings) (server : Option String) (state : State)
    (message : Message) :
    (∃ note, arriving server message = some note ∧
        (observe settings server state message).1.notes = (upsert state note).1.notes ∧
        (observe settings server state message).1.next = (upsert state note).1.next ∧
        (observe settings server state message).2 = forward settings (upsert state note).2) ∨
      arriving server message = none ∧
        ((∃ gone, observe settings server state message = removed settings state gone) ∨
          (observe settings server state message).1.notes.map DeskNote.core
              = state.notes.map DeskNote.core ∧
            (observe settings server state message).1.next = state.next ∧
            (observe settings server state message).2 = []) := by
  cases message with
  | notify destination sender serial args now =>
    simp only [arriving, observe]
    by_cases hserver : toServer server destination = true
    · rw [if_pos hserver, if_pos hserver]
      cases fromNotify args sender now with
      | none => exact .inr ⟨rfl, .inr ⟨rfl, rfl, rfl⟩⟩
      | some note => exact .inl ⟨note.1, rfl, rfl, rfl, rfl⟩
    · rw [if_neg hserver, if_neg hserver]
      exact .inr ⟨rfl, .inr ⟨rfl, rfl, rfl⟩⟩
  | reply destination serial serverId =>
    refine .inr ⟨rfl, .inr ?_⟩
    cases destination with
    | none => exact ⟨rfl, rfl, rfl⟩
    | some destination =>
      cases serverId with
      | none => exact ⟨rfl, rfl, rfl⟩
      | some serverId =>
        obtain ⟨hcore, hnext⟩ := reply_cases state (destination, serial) serverId
        exact ⟨hcore, hnext, rfl⟩
  | closed serverId =>
    refine .inr ⟨rfl, ?_⟩
    cases serverId with
    | none => exact .inr ⟨rfl, rfl, rfl⟩
    | some closed =>
      simp only [observe]
      exact .inl ⟨_, rfl⟩
  | addNotification args nameOf now =>
    simp only [arriving, observe, added]
    cases fromGtk args nameOf now with
    | none => exact .inr ⟨rfl, .inr ⟨rfl, rfl, rfl⟩⟩
    | some note => exact .inl ⟨note, rfl, rfl, rfl, rfl⟩
  | removeNotification app id =>
    refine .inr ⟨rfl, ?_⟩
    cases app with
    | none => exact .inr ⟨rfl, rfl, rfl⟩
    | some app =>
      cases id with
      | none => exact .inr ⟨rfl, rfl, rfl⟩
      | some id =>
        simp only [observe]
        exact .inl ⟨_, rfl⟩

theorem Sound.of_core (h : Sound state)
    (hcore : state'.notes.map DeskNote.core = state.notes.map DeskNote.core)
    (hnext : state'.next = state.next) : Sound state' where
  nodup := by
    rw [State.ids, ids_of_core hcore]
    exact h.nodup
  numbered id hid := by
    rw [State.ids, ids_of_core hcore] at hid
    rw [hnext]
    exact h.numbered id hid
  few := by
    have hlength := congrArg List.length hcore
    rw [List.length_map, List.length_map] at hlength
    rw [hlength]
    exact h.few

theorem step_observe {server : Option String} {message : Message}
    (hstep : m.step settings (.observe server message) = some m') :
    m'.desk = (observe settings server m.desk message).1 ∧ ∀ phone, m'.views phone
      = (observe settings server m.desk message).2.foldl View.apply (m.views phone) := by
  cases hstep
  exact ⟨rfl, fun _ => rfl⟩

/-- A step keeps the list sound. Its only new id is the next one. -/
theorem step_sound (h : Sound m.desk) (hstep : m.step settings op = some m') :
    Sound m'.desk ∧ m.desk.next ≤ m'.desk.next ∧
      ∀ id ∈ m'.desk.ids, id ∈ m.desk.ids ∨ id = idOf (m.desk.next + 1) := by
  cases op with
  | observe server message =>
    rw [(step_observe hstep).1]
    obtain ⟨note, -, hnotes, hnext, -⟩ | ⟨-, ⟨gone, heq⟩ | ⟨hcore, hnext, -⟩⟩ :=
      observe_cases settings server m.desk message
    · obtain ⟨hsound, hmore, hids⟩ := upsert_sound h note
      refine ⟨⟨?_, ?_, ?_⟩, ?_, ?_⟩
      · rw [State.ids, hnotes]
        exact hsound.nodup
      · rw [State.ids, hnotes, hnext]
        exact hsound.numbered
      · rw [hnotes]
        exact hsound.few
      · rw [hnext]
        exact hmore
      · rw [State.ids, hnotes]
        exact hids
    · have hsub : (observe settings server m.desk message).1.notes.Sublist m.desk.notes := by
        rw [heq]
        exact List.filter_sublist
      have hnext : (observe settings server m.desk message).1.next = m.desk.next := by
        rw [heq]
        rfl
      exact ⟨h.sublist hsub hnext, hnext.ge, fun id hid => .inl ((hsub.map _).subset hid)⟩
    · refine ⟨h.of_core hcore hnext, hnext.ge, fun id hid => .inl ?_⟩
      rwa [State.ids, ids_of_core hcore] at hid
  | dismiss phone id =>
    cases hstep
    obtain ⟨-, heq⟩ | ⟨before, note, after, hnotes, -, heq⟩ := closeFromPhone_cases h id
    · rw [heq]
      exact ⟨h, le_refl _, fun id hid => .inl hid⟩
    · rw [heq]
      have hsub : (before ++ after).Sublist m.desk.notes := by
        rw [hnotes]
        exact (List.Sublist.refl before).append (List.sublist_cons_self note after)
      exact ⟨h.sublist hsub rfl, le_refl _, fun id hid => .inl ((hsub.map _).subset hid)⟩
  | snapshot phone =>
    cases hstep
    exact ⟨h, le_refl _, fun id hid => .inl hid⟩

/-- A step keeps a phone's view right just when it meets the condition. -/
theorem step_shows (h : Sound m.desk) {phone : Phone}
    (hshows : Shows settings m.desk.notes (m.views phone)) (hstep : m.step settings op = some m') :
    Shows settings m'.desk.notes (m'.views phone) ↔ Keeps settings phone m op := by
  cases op with
  | observe server message =>
    rw [(step_observe hstep).1, (step_observe hstep).2]
    simp only [Keeps]
    obtain ⟨note, harriving, hnotes, -, hpackets⟩ | ⟨harriving, ⟨gone, heq⟩ | ⟨hcore, -, hpackets⟩⟩ :=
      observe_cases settings server m.desk message
    · rw [harriving, hnotes, hpackets, upsert_shows h hshows]
      simp
    · rw [harriving, heq]
      exact iff_of_true (removed_shows h hshows gone) (by simp)
    · rw [harriving, hpackets, shows_of_core hcore]
      exact iff_of_true hshows (by simp)
  | dismiss by' id =>
    cases hstep
    simp only [Keeps]
    obtain ⟨hnone, heq⟩ | ⟨before, note, after, hnotes, rfl, heq⟩ := closeFromPhone_cases h id
    · rw [heq]
      refine iff_of_true ?_ (fun _ note hnote hid =>
        absurd (List.mem_map.mpr ⟨note, hnote, hid⟩) hnone)
      by_cases hphone : phone = by'
      · rw [hphone, Function.update_self]
        intro other body
        by_cases hother : other = id
        · rw [hother, Function.update_self]
          refine iff_of_false (by simp) ?_
          rintro ⟨note, hnote, -, hid, -⟩
          exact hnone (List.mem_map.mpr ⟨note, hnote, hid⟩)
        · rw [Function.update_of_ne hother, ← hphone]
          exact hshows other body
      · rw [Function.update_of_ne hphone]
        exact hshows
    · have hnodup := h.nodup
      rw [State.ids, hnotes] at hnodup
      obtain ⟨hid, -⟩ := not_mem_others hnodup
      have hnotes' : (closeFromPhone m.desk note.id).1.notes = before ++ after := by rw [heq]
      rw [hnotes']
      by_cases hphone : phone = by'
      · rw [hphone, Function.update_self, ← hphone]
        rw [hnotes] at hshows
        exact iff_of_true (shows_cancel hid hshows) (fun hne => absurd rfl hne)
      · rw [Function.update_of_ne hphone]
        have hone : (∀ other ∈ m.desk.notes, other.id = note.id → allowed settings other = false) ↔
            allowed settings note = false := by
          constructor
          · intro hall
            exact hall note (by rw [hnotes]; simp) rfl
          · intro hnot other hother hsame
            have hnote : note ∈ m.desk.notes := by rw [hnotes]; simp
            rw [eq_of_id h.nodup hother hnote hsame]
            exact hnot
        rw [hone, imp_iff_right (fun heq => hphone heq.symm)]
        rw [hnotes] at hshows
        exact shows_without hid hshows
  | snapshot target =>
    cases hstep
    refine iff_of_true ?_ trivial
    show Shows settings m.desk.notes (if _ then _ else m.views phone)
    split
    · exact snapshot_shows h _
    · exact hshows

/-! ### Runs -/

theorem sound_new : Sound {} where
  nodup := List.nodup_nil
  numbered id hid := by cases hid
  few := Nat.zero_le _

theorem run_sound (h : Sound m.desk) (hrun : runFrom (Mirror.step settings) m ops = some m') :
    Sound m'.desk :=
  Lib.runFrom_invariant (I := fun m => Sound m.desk)
    (fun _ _ _ h hstep => (step_sound h hstep).1) h hrun

/-- An id of the past that is not in the list does not come back. -/
theorem run_gone (h : Sound m.desk) (hpast : n ≤ m.desk.next) (hgone : idOf n ∉ m.desk.ids)
    (hrun : runFrom (Mirror.step settings) m ops = some m') : idOf n ∉ m'.desk.ids := by
  refine (Lib.runFrom_invariant
    (I := fun m : Mirror Phone => Sound m.desk ∧ n ≤ m.desk.next ∧ idOf n ∉ m.desk.ids)
    (fun m op m' ⟨h, hpast, hgone⟩ hstep => ?_) ⟨h, hpast, hgone⟩ hrun).2.2
  obtain ⟨hsound, hmore, hids⟩ := step_sound h hstep
  refine ⟨hsound, hpast.trans hmore, fun hmem => ?_⟩
  obtain hold | hnew := hids _ hmem
  · exact hgone hold
  · have := idOf_inj hnew
    omega

/-- On every run no two open notifications share an id, no id is used again, and the list
stays within its bound. A phone holds exactly the allowed notifications throughout just
when every step meets the condition for it. -/
theorem phones_mirror (settings : AppSettings) {ops : List (MirrorStep Phone)}
    (hrun : runFrom (Mirror.step settings) ({} : Mirror Phone) ops = some m') :
    m'.desk.ids.Nodup ∧ m'.desk.notes.length ≤ kept ∧
    (∀ first second third a b id, first ++ second ++ third = ops →
      runFrom (Mirror.step settings) ({} : Mirror Phone) first = some a → id ∈ a.desk.ids →
      runFrom (Mirror.step settings) a second = some b → id ∉ b.desk.ids → id ∉ m'.desk.ids) ∧
    ∀ phone, Always (Mirror.step settings) (fun m => Shows settings m.desk.notes (m.views phone))
        ({} : Mirror Phone) ops ↔
      StepsMeet (Mirror.step settings) (Keeps settings phone) ({} : Mirror Phone) ops := by
  have hsound : Sound m'.desk := run_sound (m := {}) sound_new hrun
  refine ⟨hsound.nodup, hsound.few, ?_, fun phone => ?_⟩
  · rintro first second third a b id rfl hfirst hmem hsecond hgone
    have ha : Sound a.desk := run_sound (m := {}) sound_new hfirst
    obtain ⟨n, hn, rfl⟩ := ha.numbered id hmem
    have hb : Sound b.desk ∧ n ≤ b.desk.next :=
      Lib.runFrom_invariant (I := fun m : Mirror Phone => Sound m.desk ∧ n ≤ m.desk.next)
        (fun m op m' ⟨h, hpast⟩ hstep =>
          ⟨(step_sound h hstep).1, hpast.trans (step_sound h hstep).2.1⟩) ⟨ha, hn⟩ hsecond
    rw [Lib.runFrom_append, Lib.runFrom_append, hfirst, Option.bind_some, hsecond,
      Option.bind_some] at hrun
    exact run_gone hb.1 hb.2 hgone hrun
  · refine always_iff_stepsMeet (I := fun m => Sound m.desk)
      (fun _ _ _ h hstep => (step_sound h hstep).1)
      (fun _ _ _ h hshows hstep => step_shows h hshows hstep) sound_new (fun id body => ?_) hrun
    refine iff_of_false (by simp) ?_
    rintro ⟨note, hnote, -⟩
    cases hnote

/-! ### Two phones -/

instance Fits.decidable (settings : AppSettings) (notes : List DeskNote) (note : DeskNote) :
    Decidable (Fits settings notes note) :=
  match h : notes.find? (same · note) with
  | some known =>
    decidable_of_iff (allowed settings known = true → allowed settings note = true) (by
      rw [Fits, h])
  | none =>
    decidable_of_iff (kept ≤ notes.length → ∀ oldest ∈ notes.head?, allowed settings oldest = false)
      (by rw [Fits, h]; rfl)

instance Keeps.decidable (settings : AppSettings) (phone : Phone) (m : Mirror Phone) :
    ∀ op, Decidable (Keeps settings phone m op)
  | .observe server message =>
    inferInstanceAs (Decidable (∀ note ∈ arriving server message, Fits settings m.desk.notes note))
  | .dismiss by' id => inferInstanceAs (Decidable (by' ≠ phone → ∀ note ∈ m.desk.notes,
      note.id = id → allowed settings note = false))
  | .snapshot _ => .isTrue trivial

/-- One app's notifications go to two phones. -/
def chat : AppSettings := { forwardNotifications := true, forwardApps := ["org.chat"] }

/-- A GTK notification of that app. -/
def hello : Message :=
  .addNotification { appId := some "org.chat", id := some "1", title := some "Hello", body := none }
    (fun _ => none) 0

/-- A `Notify` of that app, which may replace another one. -/
def ring (replaces : Nat) (summary : String) : Message :=
  .notify (some "org.freedesktop.Notifications") ":1.5" 7
    { appName := some "Chat", replaces := some replaces, summary := some summary, body := some ""
      transient := none, desktopEntry := some "org.chat" } 0

/-- A call rings and is answered, so that its notification is replaced; one more comes, and the
first phone dismisses the call. -/
def callSteps : List (MirrorStep Bool) :=
  [.observe none (ring 0 "Ringing"), .observe none (.reply (some ":1.5") 7 (some 42)),
    .observe none (ring 42 "Missed call"), .observe none hello, .dismiss true "desk:1"]

/-- The phone that dismissed it holds what is open at every time, and the other one does not. -/
theorem phones_mirror_dismissed :
    ∃ m, runFrom (Mirror.step chat) {} callSteps = some m ∧ m.desk.ids = ["desk:2"] ∧
      m.desk.ids.Nodup ∧
      Always (Mirror.step chat) (fun m => Shows chat m.desk.notes (m.views true)) {} callSteps ∧
      ¬Always (Mirror.step chat) (fun m => Shows chat m.desk.notes (m.views false)) {} callSteps := by
  have hrun : (runFrom (Mirror.step chat) {} callSteps).any (fun m => m.desk.ids = ["desk:2"])
      = true := by
    decide +kernel
  obtain ⟨m, hm, hids⟩ := (Option.any_eq_true _ _).mp hrun
  obtain ⟨hnodup, -, -, hshows⟩ := phones_mirror chat hm
  have hfirst : StepsMeet (Mirror.step chat) (Keeps chat true) {} callSteps := by decide +kernel
  have hsecond : ¬StepsMeet (Mirror.step chat) (Keeps chat false) {} callSteps := by
    decide +kernel
  exact ⟨m, hm, of_decide_eq_true hids, hnodup, (hshows true).mpr hfirst,
    fun h => hsecond ((hshows false).mp h)⟩

/-- The notification is dismissed on one phone. The other one keeps it. -/
theorem dismissed_stays :
    ∃ m : Mirror Bool, runFrom (Mirror.step chat) {} [.observe none hello, .dismiss true "desk:1"]
        = some m ∧ m.desk.notes = [] ∧ (m.views false "desk:1").isSome = true := by
  have hrun : (runFrom (Mirror.step chat) ({} : Mirror Bool) [.observe none hello,
      .dismiss true "desk:1"]).any
        (fun m => m.desk.notes = [] && (m.views false "desk:1").isSome) = true := by
    decide +kernel
  obtain ⟨m, hm, hboth⟩ := (Option.any_eq_true _ _).mp hrun
  rw [Bool.and_eq_true, decide_eq_true_eq] at hboth
  exact ⟨m, hm, hboth⟩

end DeskLink.DeskNotifications
