import DeskLink.Desk.Dnd
import DeskLink.Lib.Run

/-!
# `DeskLink.Proofs.Desk.Dnd`: Do Not Disturb is put back

`Sound` is what every run keeps. The setting is the person's and there is no note (`Free`),
or DeskLink has it off and the note says so (`Held`). `Writes` lists what a look or the quit
can write, so the desk stays `Restorable` at every moment in between.

A phone that copies what it is told and reports an older state first is taken for one that
put itself in Do Not Disturb. `Lets` is what the engine owes at a look, and `Honest` is when
it gives it.
-/

set_option autoImplicit false

namespace DeskLink.Dnd

open Lib (runFrom StepsMeet)

/-! ### What is known of the phones -/

section
variable {now clock : Nat} {shared ready : KeySet} {phones : KeyMap Phone} {phone : Phone}
  {id : String}

theorem getElem?_known (ids : List String) (phones : KeyMap Phone) (id : String) :
    (ids.foldl (fun phones id => phones.insertIfNew id {}) phones)[id]?
      = phones[id]?.or (if id ∈ ids then some {} else none) := by
  induction ids generalizing phones with
  | nil => simp
  | cons first ids ih =>
    rw [List.foldl_cons, ih, Std.ExtTreeMap.getElem?_insertIfNew]
    by_cases hid : first = id
    · subst hid
      by_cases hmem : first ∈ phones
      · obtain ⟨phone, hphone⟩ := Option.isSome_iff_exists.mp
          (Std.ExtTreeMap.mem_iff_isSome_getElem?.mp hmem)
        simp [hmem]
      · simp [hmem]
    · have hother : id ≠ first := Ne.symm hid
      simp [hid, hother]

/-- A phone of a look shares, and is one known before or a new one, now seen. -/
theorem refresh_some (h : (refresh now shared ready phones)[id]? = some phone) :
    id ∈ shared ∧ phone = (phones[id]?.getD {}).seen now (ready.contains id) := by
  have hmem : id ∈ shared.toList ↔ id ∈ shared := Std.ExtTreeSet.mem_toList
  have hcontains : shared.contains id = true ↔ id ∈ shared := Std.ExtTreeSet.contains_iff_mem
  rw [refresh, Std.ExtTreeMap.getElem?_map, getElem?_known, Option.map_eq_some_iff,
    Std.ExtTreeMap.getElem?_filter'] at h
  obtain ⟨before, hbefore, rfl⟩ := h
  by_cases hid : id ∈ shared
  · refine ⟨hid, congrArg (Phone.seen · now _) ?_⟩
    rw [if_pos (hmem.mpr hid)] at hbefore
    cases hknown : phones[id]? with
    | none =>
      rw [hknown] at hbefore
      exact (Option.some.inj hbefore).symm
    | some known =>
      rw [hknown, Option.filter_some, if_pos (hcontains.mpr hid)] at hbefore
      exact (Option.some.inj hbefore).symm
  · have hnone : phones[id]?.filter (fun _ => shared.contains id) = none := by
      rw [Option.filter_eq_none_iff]
      exact fun _ _ hin => hid (hcontains.mp hin)
    rw [hnone, if_neg (fun hin => hid (hmem.mp hin))] at hbefore
    cases hbefore

/-- Given up on by `clock`, and not back yet. -/
def Phone.Gone (phone : Phone) (clock : Nat) : Prop := phone.active clock = false

/-- It stays so, until a look finds it ready and takes what it said for stale. -/
theorem on_seen {b : Bool} (hclock : clock ≤ now) (h : (phone.seen now b).on now = true) :
    phone.dnd = some true ∧ (phone.seen now b).follow = phone.follow ∧ ¬phone.Gone clock := by
  cases b with
  | true =>
    by_cases hback : phone.unreadySince.any (fun since => goneAfter ≤ now - since) = true
    · have hseen : phone.seen now true = { dnd := none, unreadySince := none, follow := false } :=
        if_pos hback
      rw [hseen] at h
      cases h
    · have hseen : phone.seen now true = { phone with unreadySince := none } := if_neg hback
      rw [hseen] at h ⊢
      refine ⟨by simpa [Phone.on, Phone.active] using h, rfl, fun hgone => hback ?_⟩
      rw [Phone.Gone, Phone.active] at hgone
      cases hsince : phone.unreadySince with
      | none =>
        rw [hsince] at hgone
        cases hgone
      | some since =>
        rw [hsince] at hgone
        simp only [Option.all_some, decide_eq_false_iff_not, Nat.not_lt] at hgone
        simp only [Option.any_some, decide_eq_true_eq]
        omega
  | false =>
    have hseen : phone.seen now false
        = { phone with unreadySince := some (phone.unreadySince.getD now) } := rfl
    rw [hseen, Phone.on, Bool.and_eq_true, decide_eq_true_eq] at h
    refine ⟨h.2, rfl, fun hgone => ?_⟩
    have hthere := h.1
    rw [Phone.Gone, Phone.active] at hgone
    cases hsince : phone.unreadySince with
    | none =>
      rw [hsince] at hgone
      cases hgone
    | some since =>
      rw [hsince] at hgone
      simp only [Option.all_some, decide_eq_false_iff_not, Nat.not_lt] at hgone
      simp only [Phone.active, hsince, Option.getD_some, Option.all_some,
        decide_eq_true_eq] at hthere
      omega

/-- The engine goes by a phone if its owner is there and on, or one that is on without
following. -/
theorem nextOwner_isSome {owner : Option String} : (nextOwner phones now owner).isSome = true ↔
    ∃ id phone, phones[id]? = some phone ∧ phone.on now = true ∧
      (owner = some id ∨ phone.follow = false) := by
  unfold nextOwner
  cases hkept : owner.filter (fun owner => phones[owner]?.any (fun phone => phone.on now)) with
  | some id =>
    obtain ⟨rfl, hon⟩ := Option.filter_eq_some_iff.mp hkept
    obtain ⟨phone, hphone, hon⟩ := (Option.any_eq_true _ _).mp hon
    exact iff_of_true rfl ⟨id, phone, hphone, hon, .inl rfl⟩
  | none =>
    rw [Option.isSome_map, List.isSome_head?]
    constructor
    · intro hsome
      obtain ⟨⟨id, phone⟩, hmem⟩ := List.exists_mem_of_ne_nil _ hsome
      obtain ⟨hmem, hfree⟩ := List.mem_filter.mp hmem
      rw [Bool.and_eq_true, Bool.not_eq_true'] at hfree
      exact ⟨id, phone, Std.ExtTreeMap.mem_toList_iff_getElem?_eq_some.mp hmem, hfree.1,
        .inr hfree.2⟩
    · rintro ⟨id, phone, hphone, hon, hwhy⟩
      have hfree : phone.follow = false := by
        obtain rfl | hfree := hwhy
        · have hkeep : (some id).filter
              (fun owner => phones[owner]?.any (fun phone => phone.on now)) = some id :=
            Option.filter_eq_some_iff.mpr ⟨rfl, (Option.any_eq_true _ _).mpr ⟨phone, hphone, hon⟩⟩
          rw [hkeep] at hkept
          cases hkept
        · exact hfree
      have hmem : (id, phone) ∈ phones.toList :=
        Std.ExtTreeMap.mem_toList_iff_getElem?_eq_some.mpr hphone
      exact List.ne_nil_of_mem (List.mem_filter.mpr ⟨hmem, by simp [hon, hfree]⟩)

end

/-! ### One look of the engine -/

namespace Engine

variable {e : Engine} {now : Nat} {shared ready : KeySet} {shown written : Bool}
variable {saving : Except String Unit}

/-- The phones always know the state that was told last. -/
theorem tell_eq (e : Engine) (shown changed : Bool) :
    (e.tell shown changed).1 = { e with told := some (!shown) } := by
  unfold tell
  split
  · rfl
  · rename_i htold
    rw [ne_eq, not_not] at htold
    rw [← htold]

theorem notice_kept (h : ∀ written, e.written = some written → shown = written) :
    e.notice shown = (e, []) := by
  unfold notice
  cases hwritten : e.written with
  | none => rfl
  | some written =>
    rw [Option.any_some, if_neg]
    simpa using h written hwritten

theorem notice_changed (h : e.written = some written) (hne : shown ≠ written) :
    e.notice shown = ({ e with written := none, previous := none }, [.clear]) := by
  unfold notice
  rw [h, Option.any_some, if_pos (decide_eq_true hne)]

/-- What a look comes to, but for what it tells. -/
theorem look_eq (e : Engine) (now : Nat) (shared ready : KeySet) (shown : Bool)
    (saving : Except String Unit) {first second : Engine} {cleared writes : List Write}
    {error : Option String}
    (hnotice : { e with phones := refresh now shared ready e.phones }.notice shown
      = (first, cleared))
    (hshare : { first with
        owner := nextOwner (refresh now shared ready e.phones) now first.owner }.share shown saving
      = (second, writes, error)) :
    (e.look now shared ready (some shown) saving).1
        = { second with told := some (!(shownAfter shown writes)) } ∧
      (e.look now shared ready (some shown) saving).2.1 = cleared ++ writes := by
  constructor
  · simp only [look, hnotice, hshare, tell_eq]
  · simp only [look, hnotice, hshare]

theorem share_same (h : e.owner.isSome = e.applied) : e.share shown saving = (e, [], none) :=
  if_pos h

/-- The desk goes into Do Not Disturb for the owner, if it is not there by itself. -/
theorem share_taken (howner : e.owner.isSome = true) (happlied : e.applied = false)
    (hprevious : e.previous = none) (h : shown = true ∧ saving = .ok ()) :
    ∃ phones, e.share shown saving
      = ({ e with applied := true, phones, previous := some true, written := some false },
        [.save true false, .setShown false], none) := by
  obtain ⟨rfl, rfl⟩ := h
  unfold share
  rw [if_neg (by rw [howner, happlied]; decide), if_pos howner, if_pos rfl, hprevious]
  exact ⟨_, rfl⟩

theorem share_left (howner : e.owner.isSome = true) (happlied : e.applied = false)
    (h : ¬(shown = true ∧ saving = .ok ())) :
    ∃ phones error, e.share shown saving = ({ e with applied := true, phones }, [], error) := by
  unfold share
  rw [if_neg (by rw [howner, happlied]; decide), if_pos howner]
  cases shown with
  | false => exact ⟨_, _, rfl⟩
  | true =>
    cases saving with
    | ok => exact absurd ⟨rfl, rfl⟩ h
    | error => exact ⟨_, _, rfl⟩

theorem share_back (howner : e.owner.isSome = false) (happlied : e.applied = true)
    (hwritten : e.written = some written) :
    e.share shown saving = ({ e with applied := false, written := none, previous := none },
      [.setShown (e.previous.getD true), .clear], none) := by
  unfold share
  rw [if_neg (by rw [howner, happlied]; decide), if_neg (by rw [howner]; decide), hwritten]
  rfl

theorem share_ended (howner : e.owner.isSome = false) (happlied : e.applied = true)
    (hwritten : e.written = none) :
    e.share shown saving = ({ e with applied := false }, [], none) := by
  unfold share
  rw [if_neg (by rw [howner, happlied]; decide), if_neg (by rw [howner]; decide), hwritten]
  rfl

end Engine

/-! ### The desk, the engine and the note -/

namespace World

variable {w w' : World} {l : Look}

/-- The phones as the look finds them. -/
def phones (w : World) (l : Look) : KeyMap Phone := refresh l.now l.shared l.ready w.engine.phones

/-- A sharing phone that is there is in Do Not Disturb of its own accord. -/
def OwnOn (w : World) (l : Look) : Prop :=
  ∃ id phone, (w.phones l)[id]? = some phone ∧ phone.on l.now = true ∧ w.own id = true

/-- The owner is there and on, or a phone is on that is not marked as following. -/
def Holds (w : World) (l : Look) : Prop :=
  ∃ id phone, (w.phones l)[id]? = some phone ∧ phone.on l.now = true ∧
    (w.engine.owner = some id ∨ phone.follow = false)

/-- DeskLink has the setting changed. -/
def Mine (w : World) : Prop := w.engine.written = some w.desk.shown

/-- DeskLink would change it. -/
def Takes (w : World) (l : Look) : Prop :=
  w.engine.applied = false ∧ w.desk.shown = true ∧ l.saving = .ok ()

/-- DeskLink does not have the setting, and the person does. -/
structure Free (w : World) : Prop where
  written : w.engine.written = none
  previous : w.engine.previous = none
  desk : w.desk = { shown := w.person }

/-- DeskLink wrote the setting. The person may since have changed it, unseen. -/
structure Held (w : World) : Prop where
  written : w.engine.written = some false
  previous : w.engine.previous = some true
  applied : w.engine.applied = true
  note : w.desk.note = some (true, false)
  person : w.person = true
  seen : w.desk.shown = true → w.unseen = true

structure Sound (w : World) : Prop where
  applied : w.engine.applied = w.engine.owner.isSome
  hold : w.Free ∨ w.Held
  /-- While no phone holds the desk, one that is on without following is newly so. -/
  fresh : w.engine.applied = false → ∀ id phone, w.engine.phones[id]? = some phone →
    phone.dnd = some true → phone.follow = false → w.fresh id = true ∨ phone.Gone w.clock

/-- What a look or the quit writes, from first to last. -/
inductive Writes (w : World) : List Write → Prop
  | nothing : Writes w []
  | noticed (h : w.Held) (hshown : w.desk.shown = true) : Writes w [.clear]
  | taken (h : w.Free) (hshown : w.desk.shown = true) :
      Writes w [.save true false, .setShown false]
  | back (h : w.Held) (hshown : w.desk.shown = false) : Writes w [.setShown true, .clear]

/-- How a look leaves the engine, and what it writes. -/
structure Looked (w : World) (l : Look) (e : Engine) (ws : List Write) : Prop where
  applied : e.applied = e.owner.isSome
  owner : e.owner.isSome = true ↔ w.Holds l
  phones : e.applied = false → e.phones = w.phones l
  writes : Writes w ws
  /-- DeskLink has the setting now, or not. -/
  hold : (e.written = none ∧ e.previous = none ∧ w.desk.after ws = { shown := w.person } ∧
      (w.Mine ∨ w.Takes l → ¬w.Holds l)) ∨
    (e.written = some false ∧ e.previous = some true ∧ e.applied = true ∧ w.person = true ∧
      w.desk.after ws = { shown := false, note := some (true, false) } ∧
      (w.Mine ∨ w.Takes l) ∧ w.Holds l)

theorem Looked.of {first second : Engine} {cleared writes : List Write} {error : Option String}
    (hnotice : { w.engine with phones := w.phones l }.notice w.desk.shown = (first, cleared))
    (hshare : { first with owner := nextOwner (w.phones l) l.now first.owner }.share w.desk.shown
      l.saving = (second, writes, error)) (h : w.Looked l second (cleared ++ writes)) :
    w.Looked l (w.engine.look l.now l.shared l.ready (some w.desk.shown) l.saving).1
      (w.writes (.look l)) := by
  obtain ⟨he, hwrites⟩ := Engine.look_eq w.engine l.now l.shared l.ready w.desk.shown l.saving
    hnotice hshare
  have hws : w.writes (.look l) = cleared ++ writes := hwrites
  rw [he, hws]
  exact ⟨h.applied, h.owner, h.phones, h.writes, h.hold⟩

/-- A look while the setting is the person's. -/
theorem looked_free (h : w.Free) (l : Look) :
    w.Looked l (w.engine.look l.now l.shared l.ready (some w.desk.shown) l.saving).1
      (w.writes (.look l)) := by
  have howner : (nextOwner (w.phones l) l.now w.engine.owner).isSome = true ↔ w.Holds l :=
    nextOwner_isSome
  have hnotice : { w.engine with phones := w.phones l }.notice w.desk.shown
      = ({ w.engine with phones := w.phones l }, []) := by
    refine Engine.notice_kept (fun written hwritten => ?_)
    rw [h.written] at hwritten
    cases hwritten
  have hmine : ¬w.Mine := fun hmine => by
    rw [Mine, h.written] at hmine
    cases hmine
  have hperson : w.desk.shown = w.person := congrArg Desk.shown h.desk
  cases hnext : (nextOwner (w.phones l) l.now w.engine.owner).isSome with
  | true =>
    have hholds : w.Holds l := howner.mp hnext
    cases hbefore : w.engine.applied with
    | true =>
      refine Looked.of hnotice (Engine.share_same (hnext.trans hbefore.symm)) ?_
      refine ⟨hbefore.trans hnext.symm, howner, fun _ => rfl, .nothing,
        .inl ⟨h.written, h.previous, h.desk, ?_⟩⟩
      rintro (hm | htakes)
      · exact absurd hm hmine
      · rw [htakes.1] at hbefore
        cases hbefore
    | false =>
      by_cases htakes : w.desk.shown = true ∧ l.saving = .ok ()
      · obtain ⟨phones, hshare⟩ := Engine.share_taken
          (e := { w.engine with
            phones := w.phones l, owner := nextOwner (w.phones l) l.now w.engine.owner })
          hnext hbefore h.previous htakes
        refine Looked.of hnotice hshare ⟨hnext.symm, howner, fun hfalse => Bool.noConfusion hfalse,
          .taken h htakes.1, .inr ⟨rfl, rfl, rfl, hperson.symm.trans htakes.1, rfl,
            .inr ⟨hbefore, htakes⟩, hholds⟩⟩
      · obtain ⟨phones, error, hshare⟩ := Engine.share_left
          (e := { w.engine with
            phones := w.phones l, owner := nextOwner (w.phones l) l.now w.engine.owner })
          hnext hbefore htakes
        refine Looked.of hnotice hshare ⟨hnext.symm, howner, fun hfalse => Bool.noConfusion hfalse,
          .nothing, .inl ⟨h.written, h.previous, h.desk, ?_⟩⟩
        rintro (hm | ht)
        · exact absurd hm hmine
        · exact absurd ht.2 htakes
  | false =>
    have hholds : ¬w.Holds l := fun hholds => by
      rw [howner.mpr hholds] at hnext
      cases hnext
    cases hbefore : w.engine.applied with
    | true =>
      refine Looked.of hnotice (Engine.share_ended hnext hbefore h.written) ?_
      exact ⟨hnext.symm, howner, fun _ => rfl, .nothing,
        .inl ⟨h.written, h.previous, h.desk, fun _ => hholds⟩⟩
    | false =>
      refine Looked.of hnotice (Engine.share_same (hnext.trans hbefore.symm)) ?_
      exact ⟨hbefore.trans hnext.symm, howner, fun _ => rfl, .nothing,
        .inl ⟨h.written, h.previous, h.desk, fun _ => hholds⟩⟩

/-- A look while DeskLink has the setting. -/
theorem looked_held (h : w.Held) (l : Look) :
    w.Looked l (w.engine.look l.now l.shared l.ready (some w.desk.shown) l.saving).1
      (w.writes (.look l)) := by
  have howner : (nextOwner (w.phones l) l.now w.engine.owner).isSome = true ↔ w.Holds l :=
    nextOwner_isSome
  cases hshown : w.desk.shown with
  | true =>
    -- The person has changed it back.
    have hnotice : { w.engine with phones := w.phones l }.notice w.desk.shown
        = ({ w.engine with phones := w.phones l, written := none, previous := none }, [.clear]) :=
      Engine.notice_changed h.written (by rw [hshown]; decide)
    have hdesk : w.desk.after [.clear] = { shown := w.person } := by
      rw [h.person, ← hshown]
      rfl
    have hnot : w.Mine ∨ w.Takes l → ¬w.Holds l := by
      rintro (hmine | htakes)
      · rw [Mine, h.written, hshown] at hmine
        cases hmine
      · rw [Takes, h.applied] at htakes
        cases htakes.1
    rw [← hshown]
    cases hnext : (nextOwner (w.phones l) l.now w.engine.owner).isSome with
    | true =>
      refine Looked.of hnotice (Engine.share_same (hnext.trans h.applied.symm)) ?_
      exact ⟨h.applied.trans hnext.symm, howner, fun _ => rfl, .noticed h hshown,
        .inl ⟨rfl, rfl, hdesk, hnot⟩⟩
    | false =>
      refine Looked.of hnotice (Engine.share_ended hnext h.applied rfl) ?_
      exact ⟨hnext.symm, howner, fun _ => rfl, .noticed h hshown, .inl ⟨rfl, rfl, hdesk, hnot⟩⟩
  | false =>
    have hnotice : { w.engine with phones := w.phones l }.notice w.desk.shown
        = ({ w.engine with phones := w.phones l }, []) := by
      refine Engine.notice_kept (fun written hwritten => ?_)
      rw [h.written] at hwritten
      cases hwritten
      exact hshown
    have hmine : w.Mine := by rw [Mine, h.written, hshown]
    rw [← hshown]
    cases hnext : (nextOwner (w.phones l) l.now w.engine.owner).isSome with
    | true =>
      have hdesk : w.desk.after [] = { shown := false, note := some (true, false) } :=
        congrArg₂ Desk.mk hshown h.note
      refine Looked.of hnotice (Engine.share_same (hnext.trans h.applied.symm)) ?_
      exact ⟨h.applied.trans hnext.symm, howner, fun _ => rfl, .nothing,
        .inr ⟨h.written, h.previous, h.applied, h.person, hdesk, .inl hmine, howner.mp hnext⟩⟩
    | false =>
      have hholds : ¬w.Holds l := fun hholds => by
        rw [howner.mpr hholds] at hnext
        cases hnext
      have hprevious : w.engine.previous.getD true = true := by rw [h.previous]; rfl
      refine Looked.of hnotice (Engine.share_back hnext h.applied h.written) ?_
      rw [hprevious]
      refine ⟨hnext.symm, howner, fun _ => rfl, .back h hshown, .inl ⟨rfl, rfl, ?_, fun _ => hholds⟩⟩
      rw [h.person]
      rfl

theorem looked (h : w.Sound) (l : Look) :
    w.Looked l (w.engine.look l.now l.shared l.ready (some w.desk.shown) l.saving).1
      (w.writes (.look l)) := by
  obtain hfree | hheld := h.hold
  · exact looked_free hfree l
  · exact looked_held hheld l

/-! ### The note -/

/-- The setting is the person's, or the note says what it was. -/
def Restorable (desk : Desk) (person : Bool) : Prop :=
  desk = { shown := person } ∨ (desk.note = some (true, false) ∧ person = true)

variable {desk : Desk} {person shown itself : Bool} {ws : List Write} {dnd : Option Bool}
variable {id : String}

theorem Sound.restorable (h : w.Sound) : Restorable w.desk w.person := by
  obtain hfree | hheld := h.hold
  · exact .inl hfree.desk
  · exact .inr ⟨hheld.note, hheld.person⟩

/-- Where DeskLink has the setting changed, the note tells the value to restore. -/
theorem Restorable.noted (h : Restorable desk person) (hchanged : desk.shown ≠ person) :
    desk.note = some (person, desk.shown) := by
  obtain rfl | ⟨hnote, rfl⟩ := h
  · exact absurd rfl hchanged
  · rw [hnote, Bool.eq_false_of_not_eq_true hchanged]

theorem after_take_succ (desk : Desk) (first : Write) (rest : List Write) (done : Nat) :
    desk.after ((first :: rest).take (done + 1)) = (desk.apply first).after (rest.take done) := rfl

/-- The desk can be restored after any number of the writes. -/
theorem restorable_writes (h : w.Sound) (hws : Writes w ws) (done : Nat) :
    Restorable (w.desk.after (ws.take done)) w.person := by
  have hnow : Restorable w.desk w.person := h.restorable
  cases done with
  | zero => exact hnow
  | succ done =>
    cases hws with
    | nothing => exact hnow
    | noticed hheld hshown =>
      rw [after_take_succ, List.take_nil]
      refine .inl ?_
      rw [hheld.person, ← hshown]
      rfl
    | taken hfree hshown =>
      have hperson : w.person = true := (congrArg Desk.shown hfree.desk).symm.trans hshown
      rw [after_take_succ]
      cases done with
      | zero => exact .inr ⟨rfl, hperson⟩
      | succ done =>
        rw [after_take_succ, List.take_nil]
        exact .inr ⟨rfl, hperson⟩
    | back hheld hshown =>
      rw [after_take_succ]
      cases done with
      | zero => exact .inr ⟨hheld.note, hheld.person⟩
      | succ done =>
        rw [after_take_succ, List.take_nil]
        refine .inl ?_
        rw [hheld.person]
        rfl

/-- The repair of a start, cut short or not. -/
theorem Restorable.repairing (h : Restorable desk person) (done : Nat) :
    Restorable (desk.after ((repairAfterCrash (some desk.shown) desk.note).take done)) person := by
  obtain ⟨shown, note⟩ := desk
  obtain hfree | ⟨rfl, rfl⟩ := h
  · cases hfree
    rw [repairAfterCrash, List.take_nil]
    exact .inl rfl
  · cases done with
    | zero => exact .inr ⟨rfl, rfl⟩
    | succ done =>
      cases shown with
      | true =>
        refine .inl ?_
        show (({ shown := true, note := some (true, false) } : Desk).apply .clear).after
          (([] : List Write).take done) = _
        rw [List.take_nil]
        rfl
      | false =>
        show Restorable (({ shown := false, note := some (true, false) } : Desk).apply
          (.setShown true) |>.after (([.clear] : List Write).take done)) true
        cases done with
        | zero => exact .inr ⟨rfl, rfl⟩
        | succ done =>
          rw [after_take_succ, List.take_nil]
          exact .inl rfl

theorem Restorable.repaired (h : Restorable desk person) :
    World.repaired desk = { shown := person } := by
  obtain ⟨shown, note⟩ := desk
  obtain hfree | ⟨rfl, rfl⟩ := h
  · cases hfree
    rfl
  · cases shown <;> rfl

theorem writes_quit (h : w.Sound) : Writes w (w.writes .quit) := by
  show Writes w (w.engine.quit (some w.desk.shown)).2
  unfold Engine.quit
  obtain hfree | hheld := h.hold
  · rw [hfree.written]
    exact .nothing
  · rw [hheld.written, hheld.previous]
    cases hshown : w.desk.shown with
    | true => exact .noticed hheld hshown
    | false => exact .back hheld hshown

theorem writes_sound (h : w.Sound) (during : During) : Writes w (w.writes during) := by
  cases during with
  | nothing => exact .nothing
  | look l => exact (looked h l).writes
  | quit => exact writes_quit h

/-- At every moment of a look, of the quit and of the repair after a crash. -/
theorem restorable_during (h : w.Sound) (during : During) (done : Nat) :
    Restorable (w.desk.after ((w.writes during).take done)) w.person :=
  restorable_writes h (writes_sound h during) done

theorem crashed_eq (h : w.Sound) (during : During) (done repairs : Nat) :
    w.crashed during done repairs = { shown := w.person } :=
  ((restorable_during h during done).repairing repairs).repaired

theorem quit_eq (h : w.Sound) : w.desk.after (w.writes .quit) = { shown := w.person } := by
  have hwrites : w.writes .quit = (w.engine.quit (some w.desk.shown)).2 := rfl
  rw [hwrites]
  unfold Engine.quit
  obtain hfree | hheld := h.hold
  · rw [hfree.written, ← hfree.desk]
    rfl
  · rw [hheld.written, hheld.previous, hheld.person]
    cases hshown : w.desk.shown with
    | true =>
      have hdesk : w.desk.after [.clear] = { shown := true } := by
        rw [← hshown]
        rfl
      exact hdesk
    | false => rfl

/-! ### Runs -/

theorem start_sound (shown : Bool) : (start shown).Sound where
  applied := rfl
  hold := .inl ⟨rfl, rfl, rfl⟩
  fresh _ id phone hphone := by
    have hnone : (start shown).engine.phones[id]? = none := Std.ExtTreeMap.getElem?_empty
    rw [hnone] at hphone
    cases hphone

theorem restarted_sound (hperson : w.person = shown) : (w.restarted { shown }).Sound where
  applied := rfl
  hold := .inl ⟨rfl, rfl, by rw [restarted, hperson]⟩
  fresh _ id phone hphone := by
    have hnone : (w.restarted { shown }).engine.phones[id]? = none := Std.ExtTreeMap.getElem?_empty
    rw [hnone] at hphone
    cases hphone

/-- A report that turns Do Not Disturb on where it was not is fresh. -/
theorem fresh_report (hstep : w.step (.report id dnd itself) = some w') :
    (∀ a ≠ id, w'.fresh a = w.fresh a) ∧ (dnd = none → w'.fresh id = w.fresh id) ∧
      (dnd = some true → w'.fresh id = true ∨
        ((w.engine.phones[id]?.bind Phone.dnd) = some true ∧ w'.fresh id = w.fresh id)) := by
  cases hstep
  refine ⟨fun a ha => ?_, ?_, ?_⟩
  · show (if _ then _ else if _ then _ else _ : String → Bool) a = _
    split
    · exact Function.update_of_ne ha ..
    · split
      · exact Function.update_of_ne ha ..
      · rfl
  · rintro rfl
    rfl
  · rintro rfl
    by_cases hbefore : (w.engine.phones[id]?.bind Phone.dnd) = some true
    · refine .inr ⟨hbefore, ?_⟩
      show (if _ then _ else _ : String → Bool) id = _
      rw [if_neg (by simp [hbefore])]
      rfl
    · refine .inl ?_
      show (if _ then _ else _ : String → Bool) id = _
      rw [if_pos (by simp [hbefore])]
      exact Function.update_self ..

/-- A phone reports its state. -/
theorem report_sound (h : w.Sound) (hstep : w.step (.report id dnd itself) = some w') :
    w'.Sound := by
  obtain ⟨hothers, hsilent, hturned⟩ := fresh_report hstep
  have hengine : w'.engine = w.engine.onPhone id dnd := by cases hstep; rfl
  have hclock : w'.clock = w.clock := by cases hstep; rfl
  refine ⟨by rw [hengine]; exact h.applied, ?_, fun happlied a phone hphone hon hfollow => ?_⟩
  · cases hstep
    obtain hfree | hheld := h.hold
    · exact .inl ⟨hfree.written, hfree.previous, hfree.desk⟩
    · exact .inr ⟨hheld.written, hheld.previous, hheld.applied, hheld.note, hheld.person,
        hheld.seen⟩
  · rw [hengine] at happlied hphone
    rw [hclock]
    have hinsert : (w.engine.phones.insert id ((w.engine.phones[id]?.getD {}).reported dnd))[a]?
        = some phone := hphone
    rw [getElem?_keyInsert] at hinsert
    by_cases ha : id = a
    · subst ha
      rw [if_pos rfl] at hinsert
      have hreported := Option.some.inj hinsert
      -- What it said before, it still says.
      have hsame (hbefore : (w.engine.phones[id]?.bind Phone.dnd) = some true)
          (hdnd : dnd ≠ some false) : w.fresh id = true ∨ phone.Gone w.clock := by
        obtain ⟨known, hknown, hon'⟩ := Option.bind_eq_some_iff.mp hbefore
        have hphone : known.reported dnd = phone := by rw [← hreported, hknown, Option.getD_some]
        have hknow : known = phone := by
          rw [← hphone, Phone.reported, if_neg hdnd, hon']
          obtain ⟨d, since, follow⟩ := known
          cases hon'
          cases dnd with
          | none => rfl
          | some d =>
            cases d with
            | true => rfl
            | false => exact absurd rfl hdnd
        rw [hknow] at hknown
        exact h.fresh happlied id phone hknown hon hfollow
      cases dnd with
      | none =>
        rw [hsilent rfl]
        refine hsame ?_ (by simp)
        cases hknown : w.engine.phones[id]? with
        | none =>
          rw [hknown] at hreported
          rw [← hreported] at hon
          cases hon
        | some known =>
          rw [hknown] at hreported
          rw [← hreported] at hon
          exact hon
      | some d =>
        cases d with
        | false =>
          rw [← hreported] at hon
          cases hon
        | true =>
          obtain hfresh | ⟨hbefore, hfresh⟩ := hturned rfl
          · exact .inl hfresh
          · rw [hfresh]
            exact hsame hbefore (by simp)
    · rw [if_neg ha] at hinsert
      rw [hothers a (Ne.symm ha)]
      exact h.fresh happlied a phone hinsert hon hfollow

theorem look_sound (h : w.Sound) (hstep : w.step (.look l) = some w') : w'.Sound := by
  rw [step] at hstep
  split at hstep
  · cases hstep
    have hlook := looked h l
    refine ⟨hlook.applied, ?_, fun happlied id phone hphone hon hfollow => .inr ?_⟩
    · obtain ⟨hwritten, hprevious, hdesk, -⟩ | ⟨hwritten, hprevious, happlied, hperson, hdesk, -⟩ :=
        hlook.hold
      · exact .inl ⟨hwritten, hprevious, hdesk⟩
      · refine .inr ⟨hwritten, hprevious, happlied, congrArg Desk.note hdesk, hperson, ?_⟩
        intro hshown
        have hoff := congrArg Desk.shown hdesk
        rw [hshown] at hoff
        cases hoff
    · -- One that is there would hold the desk.
      by_contra hgone
      have hthere : phone.on l.now = true := by
        rw [Phone.on, Bool.and_eq_true, decide_eq_true_eq]
        exact ⟨Bool.eq_true_of_not_eq_false hgone, hon⟩
      have hphone : (w.phones l)[id]? = some phone := by
        rw [← hlook.phones happlied]
        exact hphone
      have howner := hlook.owner.mpr ⟨id, phone, hphone, hthere, .inr hfollow⟩
      rw [← hlook.applied, happlied] at howner
      cases howner
  · cases hstep

theorem change_sound (h : w.Sound) (hstep : w.step .change = some w') : w'.Sound := by
  rw [step] at hstep
  split at hstep
  · cases hstep
  · rename_i hseen
    cases hstep
    refine ⟨h.applied, ?_, h.fresh⟩
    obtain hfree | hheld := h.hold
    · refine .inl ⟨hfree.written, hfree.previous, ?_⟩
      have hnote : w.desk.note = none := congrArg Desk.note hfree.desk
      exact congrArg (Desk.mk (!w.desk.shown)) hnote
    · have hshown : w.desk.shown = false :=
        Bool.eq_false_of_not_eq_true (fun hshown => hseen (hheld.seen hshown))
      refine .inr ⟨hheld.written, hheld.previous, hheld.applied, hheld.note, ?_, fun _ => rfl⟩
      show (!w.desk.shown) = true
      rw [hshown]
      rfl

theorem step_sound {a : DndStep} (h : w.Sound) (hstep : w.step a = some w') : w'.Sound := by
  cases a with
  | report id dnd itself => exact report_sound h hstep
  | look l => exact look_sound h hstep
  | change => exact change_sound h hstep
  | quit =>
    cases hstep
    rw [quit_eq h]
    exact restarted_sound rfl
  | crash during done repairs =>
    cases hstep
    rw [crashed_eq h]
    exact restarted_sound rfl

theorem run_sound {steps : List DndStep} (hrun : runFrom step (start shown) steps = some w) :
    w.Sound :=
  Lib.runFrom_invariant (I := Sound) (fun _ _ _ h hstep => step_sound h hstep) (start_sound shown)
    hrun

/-! ### What a look owes -/

/-- Without a phone in Do Not Disturb of its own accord, the look leaves the setting as the
person last gave it. -/
def Lets (w : World) : DndStep → Prop
  | .look l => ∀ w', w.step (.look l) = some w' → ¬w.OwnOn l → w'.desk.shown = w.person
  | .report .. | .change | .quit | .crash .. => True

/-- A phone that the engine goes by is not taken for one that put itself in Do Not Disturb
while there is none, as far as the setting hangs on it. -/
def Honest (w : World) : DndStep → Prop
  | .look l => w.clock ≤ l.now → w.Mine ∨ w.Takes l → w.Holds l → w.OwnOn l
  | .report .. | .change | .quit | .crash .. => True

theorem lets_iff_honest (h : w.Sound) (a : DndStep) : w.Lets a ↔ w.Honest a := by
  cases a with
  | look l =>
    have hlook := looked h l
    constructor
    · intro hlets hclock hsets hholds
      by_contra hown
      have hshown : (w.desk.after (w.writes (.look l))).shown = w.person :=
        hlets _ (if_pos hclock) hown
      obtain ⟨-, -, -, hnot⟩ | ⟨-, -, -, hperson, hdesk, -⟩ := hlook.hold
      · exact hnot hsets hholds
      · rw [hdesk, hperson] at hshown
        cases hshown
    · intro hhonest w' hstep hown
      rw [step] at hstep
      split at hstep
      · rename_i hclock
        cases hstep
        obtain ⟨-, -, hdesk, -⟩ | ⟨-, -, -, -, -, hsets, hholds⟩ := hlook.hold
        · exact congrArg Desk.shown hdesk
        · exact absurd (hhonest hclock hsets hholds) hown
      · cases hstep
  | report | change | quit | crash => exact iff_of_true trivial trivial

/-- The person's value is overwritten for a phone that newly turned Do Not Disturb on. -/
theorem overwritten (h : w.Sound) (hstep : w.step (.look l) = some w')
    (hbefore : w.desk.shown = w.person) (hafter : w'.desk.shown ≠ w.person) :
    ∃ id ∈ l.shared, w.fresh id = true := by
  rw [step] at hstep
  split at hstep
  · rename_i hclock
    cases hstep
    obtain ⟨-, -, hdesk, -⟩ | ⟨-, -, -, hperson, -, hsets, id, phone, hphone, hon, hwhy⟩ :=
      (looked h l).hold
    · exact absurd (congrArg Desk.shown hdesk) hafter
    · have happlied : w.engine.applied = false := by
        obtain hmine | htakes := hsets
        · -- Its own value is not the person's.
          obtain hfree | hheld := h.hold
          · rw [Mine, hfree.written] at hmine
            cases hmine
          · rw [Mine, hheld.written, hbefore, hperson] at hmine
            cases hmine
        · exact htakes.1
      have howner : w.engine.owner = none := by
        rw [← Option.not_isSome_iff_eq_none, ← h.applied, happlied]
        decide
      obtain ⟨hshared, rfl⟩ := refresh_some hphone
      obtain ⟨hdnd, hsame, hthere⟩ := on_seen hclock hon
      have hfollow : (w.engine.phones[id]?.getD {}).follow = false := by
        rw [← hsame]
        refine hwhy.resolve_left (fun heq => ?_)
        rw [howner] at heq
        cases heq
      cases hknown : w.engine.phones[id]? with
      | none =>
        rw [hknown] at hdnd
        cases hdnd
      | some known =>
        rw [hknown, Option.getD_some] at hdnd hfollow hthere
        exact ⟨id, hshared,
          (h.fresh happlied id known hknown hdnd hfollow).resolve_right hthere⟩
  · cases hstep

/-- The desk after so many writes, and after so many of a repair behind a crash there. -/
def amid (w : World) (during : During) (done repairs : Nat) : Desk :=
  let desk := w.desk.after ((w.writes during).take done)
  desk.after ((repairAfterCrash (some desk.shown) desk.note).take repairs)

/-- At every moment of a run a changed setting has its note, each end puts it back, and the
person's value is overwritten for a phone that newly turned Do Not Disturb on. The looks
leave the setting to the person, without a phone that is in Do Not Disturb of its own
accord, just when they are honest. -/
theorem dnd_shared {shown : Bool} {steps : List DndStep}
    (hrun : runFrom step (start shown) steps = some w) :
    (∀ during done repairs, (w.amid during done repairs).shown ≠ w.person →
      (w.amid during done repairs).note
        = some (w.person, (w.amid during done repairs).shown)) ∧
    (∀ w', w.step .quit = some w' → w'.desk = { shown := w.person }) ∧
    (∀ during done repairs w', w.step (.crash during done repairs) = some w' →
      w'.desk = { shown := w.person }) ∧
    (∀ l w', w.step (.look l) = some w' → w.desk.shown = w.person → w'.desk.shown ≠ w.person →
      ∃ id ∈ l.shared, w.fresh id = true) ∧
    (StepsMeet step Lets (start shown) steps ↔ StepsMeet step Honest (start shown) steps) := by
  have hsound : w.Sound := run_sound hrun
  refine ⟨fun during done repairs => ?_, ?_, ?_, fun l w' => overwritten hsound, ?_⟩
  · exact ((restorable_during hsound during done).repairing repairs).noted
  · intro w' hstep
    cases hstep
    exact quit_eq hsound
  · intro during done repairs w' hstep
    cases hstep
    exact crashed_eq hsound during done repairs
  · exact Lib.stepsMeet_congr (I := Sound) (fun _ _ _ h hstep => step_sound h hstep)
      (fun _ a h => lets_iff_honest h a) (start_sound shown)

/-- A look at two sharing phones, both ready. -/
def both (now : Nat) : Look where
  now
  shared := ((∅ : KeySet).insert "a").insert "b"
  ready := ((∅ : KeySet).insert "a").insert "b"
  saving := .ok ()

/-- A phone turns Do Not Disturb on. The other one reports its old state once more before
it copies the desk, and the first turns it off again. -/
def echoed : List DndStep :=
  [.look (both 0), .report "a" (some true) true, .look (both 1), .report "b" (some false) false,
    .report "b" (some true) false, .report "a" (some false) false]

/-- What is promised, once both phones have reported. -/
theorem dnd_shared_echoed : ∃ w, runFrom step (start true) echoed = some w ∧
    (∀ during done repairs, (w.amid during done repairs).shown ≠ w.person →
      (w.amid during done repairs).note
        = some (w.person, (w.amid during done repairs).shown)) ∧
    (∀ w', w.step .quit = some w' → w'.desk = { shown := w.person }) ∧
    (∀ during done repairs w', w.step (.crash during done repairs) = some w' →
      w'.desk = { shown := w.person }) ∧
    (∀ l w', w.step (.look l) = some w' → w.desk.shown = w.person → w'.desk.shown ≠ w.person →
      ∃ id ∈ l.shared, w.fresh id = true) ∧
    (StepsMeet step Lets (start true) echoed ↔ StepsMeet step Honest (start true) echoed) := by
  obtain ⟨w, hw⟩ := Option.isSome_iff_exists.mp
    (by decide +kernel : (runFrom step (start true) echoed).isSome = true)
  exact ⟨w, hw, dnd_shared hw⟩

/-- The copying phone keeps the desk in Do Not Disturb, with no phone left that is there of
its own accord. -/
theorem echo_sustains : ∃ w w', runFrom step (start true) echoed = some w ∧
    w.step (.look (both 2)) = some w' ∧ ¬w.OwnOn (both 2) ∧ w.person = true ∧
      w'.desk.shown = false := by
  have hany : (runFrom step (start true) echoed).any (fun w =>
      (w.step (.look (both 2))).any (fun w' =>
        (w.phones (both 2)).toList.all (fun entry => !(entry.2.on 2 && w.own entry.1))
          && (w.person && !w'.desk.shown))) = true := by
    decide +kernel
  obtain ⟨w, hw, hany⟩ := (Option.any_eq_true _ _).mp hany
  obtain ⟨w', hw', hcheck⟩ := (Option.any_eq_true _ _).mp hany
  rw [Bool.and_eq_true, Bool.and_eq_true, Bool.not_eq_true', List.all_eq_true] at hcheck
  refine ⟨w, w', hw, hw', ?_, hcheck.2.1, hcheck.2.2⟩
  rintro ⟨id, phone, hphone, hon, hown⟩
  have hnot := hcheck.1 (id, phone) (Std.ExtTreeMap.mem_toList_iff_getElem?_eq_some.mpr hphone)
  have hon : phone.on 2 = true := hon
  rw [hon, hown] at hnot
  cases hnot

end World

end DeskLink.Dnd
