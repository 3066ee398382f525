import DeskLink.Contacts.Book
import DeskLink.Lib.Counted

/-!
# `DeskLink.Proofs.Contacts.Snapshots`: contacts are deleted on a complete snapshot only

`Entered` says what a pending snapshot holds of the packets that came: the
first of each number since it became the pending one. `place_keeps` is one
part and `entered_run` any packets. A snapshot is given when every number is
there, and it is the union of the parts (`Union`).

`Following` is a book between a snapshot and the last of the replies to what
it asked for, and `book_follows` what the book is then.
-/

set_option autoImplicit false

namespace DeskLink.Contacts

/-! ### Maps put together -/

section
variable {V : Type} {entries : List (String × V)} {k : String}

def put (m : KeyMap V) (entries : List (String × V)) : KeyMap V :=
  entries.foldl (fun m e => m.insert e.1 e.2) m

theorem put_of_not_mem (m : KeyMap V) (h : k ∉ entries.map Prod.fst) :
    (put m entries)[k]? = m[k]? := by
  induction entries generalizing m with
  | nil => rfl
  | cons e entries ih =>
    rw [List.map_cons, List.mem_cons, not_or] at h
    show (put (m.insert e.1 e.2) entries)[k]? = _
    rw [ih _ h.2, getElem?_keyInsert, if_neg (Ne.symm h.1)]

theorem put_of_mem {v : V} (m : KeyMap V) (hnodup : (entries.map Prod.fst).Nodup)
    (h : (k, v) ∈ entries) : (put m entries)[k]? = some v := by
  induction entries generalizing m with
  | nil => cases h
  | cons e entries ih =>
    rw [List.map_cons, List.nodup_cons] at hnodup
    show (put (m.insert e.1 e.2) entries)[k]? = _
    obtain rfl | hrest := List.mem_cons.mp h
    · rw [put_of_not_mem _ hnodup.1, getElem?_keyInsert, if_pos rfl]
    · exact ih _ hnodup.2 hrest

/-- A map put over another: where it has nothing the other shows. -/
theorem put_toList (m n : KeyMap V) (k : String) :
    (put m n.toList)[k]? = if (n[k]?).isSome then n[k]? else m[k]? := by
  cases hk : n[k]? with
  | none =>
    rw [if_neg (by simp)]
    apply put_of_not_mem
    intro hmem
    obtain ⟨e, he, rfl⟩ := List.mem_map.mp hmem
    rw [(mem_toList_iff n e).mp he] at hk
    cases hk
  | some v =>
    rw [if_pos (by simp)]
    exact put_of_mem m (nodup_keys_toList n) ((mem_toList_iff n (k, v)).mpr hk)

end

variable {packet : Packet} {id : String} {total : Nat}

/-- `list` has what the maps of `parts` have; where two have the same key,
that with the greater number shows. -/
def Union (parts : Nat → Option (KeyMap String)) (list : KeyMap String) : Prop :=
  ∀ uid stamp : String, list[uid]? = some stamp ↔
    ∃ k part, parts k = some part ∧ part[uid]? = some stamp ∧
      ∀ k' part', k < k' → parts k' = some part' → part'[uid]? = none

/-- Maps in the order of their numbers, one put over the other. -/
theorem put_sorted (l : List (Nat × KeyMap String)) (hsorted : l.Pairwise (fun a b => a.1 < b.1))
    (uid stamp : String) :
    (collect (l.flatMap (fun e => e.2.toList)))[uid]? = some stamp ↔
      ∃ e ∈ l, e.2[uid]? = some stamp ∧ ∀ e' ∈ l, e.1 < e'.1 → e'.2[uid]? = none := by
  induction l using List.reverseRecOn with
  | nil => simp [collect]
  | append_singleton l last ih =>
    obtain ⟨hl, -, hlast⟩ := List.pairwise_append.mp hsorted
    have hbelow : ∀ e ∈ l, e.1 < last.1 := fun e he => hlast e he last List.mem_cons_self
    have hstep : collect ((l ++ [last]).flatMap (fun e => e.2.toList))
        = put (collect (l.flatMap (fun e => e.2.toList))) last.2.toList := by
      unfold collect put
      rw [List.flatMap_append, List.foldl_append, List.flatMap_singleton]
    rw [hstep, put_toList]
    cases hget : last.2[uid]? with
    | some s =>
      rw [if_pos (by simp)]
      constructor
      · intro heq
        refine ⟨last, List.mem_append_right _ List.mem_cons_self, by rw [hget]; exact heq, ?_⟩
        intro e' he' hlt
        obtain hold | hnew := List.mem_append.mp he'
        · exact absurd (hbelow e' hold) (by omega)
        · rw [List.mem_singleton.mp hnew] at hlt
          omega
      · rintro ⟨e, he, hstamp, habove⟩
        obtain hold | hnew := List.mem_append.mp he
        · -- The last one has the key too.
          have hnone := habove last (List.mem_append_right _ List.mem_cons_self) (hbelow e hold)
          rw [hget] at hnone
          cases hnone
        · rw [List.mem_singleton.mp hnew, hget] at hstamp
          exact hstamp
    | none =>
      rw [if_neg (by simp), ih hl]
      constructor
      · rintro ⟨e, he, hstamp, habove⟩
        refine ⟨e, List.mem_append_left _ he, hstamp, fun e' he' hlt => ?_⟩
        obtain hold | hnew := List.mem_append.mp he'
        · exact habove e' hold hlt
        · rw [List.mem_singleton.mp hnew]
          exact hget
      · rintro ⟨e, he, hstamp, habove⟩
        obtain hold | hnew := List.mem_append.mp he
        · exact ⟨e, hold, hstamp, fun e' he' => habove e' (List.mem_append_left _ he')⟩
        · rw [List.mem_singleton.mp hnew, hget] at hstamp
          cases hstamp

theorem union_spec (done : Pending) : Union (fun k => done.got[k]?) done.union := by
  unfold Union Pending.union
  intro uid stamp
  rw [put_sorted _ (idMap_sorted done.got)]
  constructor
  · rintro ⟨e, he, hstamp, habove⟩
    refine ⟨e.1, e.2, (mem_idMap_toList _ e).mp he, hstamp, fun k' part' hlt hpart => ?_⟩
    exact habove (k', part') ((mem_idMap_toList _ (k', part')).mpr hpart) hlt
  · rintro ⟨k, part, hpart, hstamp, habove⟩
    refine ⟨(k, part), (mem_idMap_toList _ (k, part)).mpr hpart, hstamp, fun e' he' hlt => ?_⟩
    exact habove e'.1 e'.2 hlt ((mem_idMap_toList _ e').mp he')

/-! ### Parts that come -/

/-- A part of a snapshot. -/
structure Part where
  id : String
  number : Nat
  total : Nat
  stamps : KeyMap String

/-- The part that a packet is, if it is one that counts. -/
def partOf (packet : Packet) : Option Part :=
  match parseSnapshot packet, partNumbers packet with
  | some (stamps, true), some (id, number, total) => some ⟨id, number, total, stamps⟩
  | _, _ => none

/-- A snapshot that is not in parts, or says that the phone does not share. -/
def isWhole (packet : Packet) : Bool :=
  match parseSnapshot packet with
  | none => false
  | some (_, sharing) => !sharing || ((packet.getStr "snapshot").isNone
      && (packet.getI64 "part").isNone && (packet.getI64 "parts").isNone)

theorem partNumbers_some {number : Nat} (h : partNumbers packet = some (id, number, total)) :
    (packet.getStr "snapshot").isSome ∧ 1 ≤ number ∧ number ≤ total := by
  unfold partNumbers at h
  split at h
  · rename_i sid part parts hsid hpart hparts
    split at h
    · cases h
    · split at h
      · cases h
      · rename_i hrange
        cases h
        rw [hsid]
        refine ⟨rfl, ?_⟩
        tauto
  · cases h

/-- What a packet is: nothing that counts, a whole snapshot, or a part. -/
theorem assemble_cases (pending : KeyMap Pending) (d : String) (packet : Packet) (now : Nat) :
    (partOf packet = none ∧ isWhole packet = false ∧
        assemble pending d packet now = (pending, none)) ∨
      (partOf packet = none ∧ isWhole packet = true ∧ ∃ stamps sharing,
        assemble pending d packet now = (pending.erase d, some (stamps, sharing))) ∨
      ∃ p, partOf packet = some p ∧ isWhole packet = false ∧ 1 ≤ p.number ∧ p.number ≤ p.total ∧
        assemble pending d packet now = place pending d p.id p.number p.total p.stamps now := by
  unfold assemble partOf isWhole
  cases hparse : parseSnapshot packet with
  | none => exact .inl ⟨rfl, rfl, rfl⟩
  | some parsed =>
    obtain ⟨stamps, sharing⟩ := parsed
    simp only
    by_cases hwhole : (!sharing || ((packet.getStr "snapshot").isNone
        && (packet.getI64 "part").isNone && (packet.getI64 "parts").isNone)) = true
    · rw [if_pos hwhole]
      refine .inr (.inl ⟨?_, hwhole, stamps, sharing, rfl⟩)
      cases hnumbers : partNumbers packet with
      | none => cases sharing <;> rfl
      | some numbers =>
        -- A packet with numbers has the three fields.
        have hsome := (partNumbers_some hnumbers).1
        cases sharing with
        | false => rfl
        | true =>
          cases hid : packet.getStr "snapshot" with
          | none =>
            rw [hid] at hsome
            cases hsome
          | some id =>
            rw [hid] at hwhole
            simp at hwhole
    · rw [if_neg hwhole]
      have hsharing : sharing = true := by
        cases sharing with
        | false => simp at hwhole
        | true => rfl
      subst hsharing
      cases hnumbers : partNumbers packet with
      | none => exact .inl ⟨rfl, eq_false_of_ne_true hwhole, rfl⟩
      | some numbers =>
        obtain ⟨id, number, total⟩ := numbers
        obtain ⟨-, hone, hle⟩ := partNumbers_some hnumbers
        exact .inr (.inr ⟨⟨id, number, total, stamps⟩, rfl, eq_false_of_ne_true hwhole, hone, hle,
          rfl⟩)

/-- A packet and when it came. -/
abbrev Arrival := Packet × Nat

/-- The pending snapshots after some packets of the phone. -/
def pendingAfter (start : KeyMap Pending) (d : String) (arrivals : List Arrival) : KeyMap Pending :=
  arrivals.foldl (fun pending a => (assemble pending d a.1 a.2).1) start

/-- What an arrival has of the part with this number. -/
def Arrival.stampsOf (k : Nat) (a : Arrival) : Option (KeyMap String) :=
  (partOf a.1).bind (fun p => if p.number = k then some p.stamps else none)

/-- The first part with this number that came. -/
def firstOf (arrivals : List Arrival) (k : Nat) : Option (KeyMap String) :=
  arrivals.findSome? (Arrival.stampsOf k)

/-- `recent` is what came since the snapshot `id` of `total` parts last
became the pending one, at the instant `started`: with a part of it while no
such one was pending in time, and since then with nothing of another, and
nothing too late. It is the pending one in between. -/
structure Since (start : KeyMap Pending) (d : String) (old recent : List Arrival) (id : String)
    (total started : Nat) : Prop where
  opened : ∀ known, (pendingAfter start d old)[d]? = some known → known.stale id total started
  head : ∃ packet rest, recent = (packet, started) :: rest ∧ (partOf packet).isSome
  whole : ∀ a ∈ recent, isWhole a.1 = false
  parts : ∀ a ∈ recent, ∀ p, partOf a.1 = some p →
    p.id = id ∧ p.total = total ∧ a.2 - started ≤ snapshotTimeout ∧ 1 ≤ p.number ∧ p.number ≤ total
  stays : ∀ first rest, recent = first ++ rest → first ≠ [] → rest ≠ [] →
    ∃ entry, (pendingAfter start d (old ++ first))[d]? = some entry ∧ entry.id = id ∧
      entry.parts = total ∧ entry.started = started

/-- The entry holds the first part of each number that came. -/
def Entered (start : KeyMap Pending) (d : String) (arrivals : List Arrival) (entry : Pending) : Prop :=
  ∃ old recent, arrivals = old ++ recent ∧
    Since start d old recent entry.id entry.parts entry.started ∧
    ∀ k, entry.got[k]? = firstOf recent k

theorem firstOf_append (a b : List Arrival) (k : Nat) :
    firstOf (a ++ b) k = (firstOf a k).or (firstOf b k) := by
  unfold firstOf
  rw [List.findSome?_append]

theorem firstOf_single (a : Arrival) (k : Nat) : firstOf [a] k = a.stampsOf k := by
  simp [firstOf]

theorem pendingAfter_snoc (start : KeyMap Pending) (d : String) (arrivals : List Arrival)
    (a : Arrival) : pendingAfter start d (arrivals ++ [a])
      = (assemble (pendingAfter start d arrivals) d a.1 a.2).1 := by
  simp [pendingAfter]

variable {start : KeyMap Pending} {d uid : String} {arrivals old recent : List Arrival}
variable {entry : Pending} {a : Arrival} {p : Part}

/-- While it is the pending one, one more packet may come. -/
theorem Since.stays_snoc (h : Since start d old recent entry.id entry.parts entry.started)
    (hentry : (pendingAfter start d (old ++ recent))[d]? = some entry) (a : Arrival)
    (first rest : List Arrival) (hsplit : recent ++ [a] = first ++ rest) (hfirst : first ≠ [])
    (hrest : rest ≠ []) :
    ∃ other, (pendingAfter start d (old ++ first))[d]? = some other ∧ other.id = entry.id ∧
      other.parts = entry.parts ∧ other.started = entry.started := by
  obtain hnil | ⟨init, last, rfl⟩ := List.eq_nil_or_concat' rest
  · exact absurd hnil hrest
  · rw [← List.append_assoc] at hsplit
    obtain ⟨rfl, -⟩ := List.append_inj' hsplit rfl
    by_cases hinit : init = []
    · subst hinit
      rw [List.append_nil] at hentry
      exact ⟨entry, hentry, rfl, rfl, rfl⟩
    · exact h.stays first init rfl hfirst hinit

/-- A packet that does not count changes nothing. -/
theorem Entered.ignore (h : Entered start d arrivals entry)
    (hentry : (pendingAfter start d arrivals)[d]? = some entry) (hpart : partOf a.1 = none)
    (hwhole : isWhole a.1 = false) :
    Entered start d (arrivals ++ [a]) entry := by
  obtain ⟨old, recent, harrivals, hsince, hgot⟩ := h
  refine ⟨old, recent ++ [a], by rw [harrivals, List.append_assoc], ?_, fun k => ?_⟩
  · constructor
    · exact hsince.opened
    · obtain ⟨packet, rest, hrecent, hsome⟩ := hsince.head
      exact ⟨packet, rest ++ [a], by rw [hrecent]; rfl, hsome⟩
    · intro b hb
      obtain hold | hnew := List.mem_append.mp hb
      · exact hsince.whole b hold
      · rw [List.mem_singleton.mp hnew]
        exact hwhole
    · intro b hb p hp
      obtain hold | hnew := List.mem_append.mp hb
      · exact hsince.parts b hold p hp
      · rw [List.mem_singleton.mp hnew, hpart] at hp
        cases hp
    · exact hsince.stays_snoc (harrivals ▸ hentry) a
  · rw [firstOf_append, ← hgot k, firstOf_single, Arrival.stampsOf, hpart]
    simp

/-- A part of the snapshot that is pending. -/
theorem Entered.extend (h : Entered start d arrivals entry)
    (hentry : (pendingAfter start d arrivals)[d]? = some entry) (hpart : partOf a.1 = some p)
    (hwhole : isWhole a.1 = false) (hone : 1 ≤ p.number) (hle : p.number ≤ p.total)
    (hfresh : entry.stale p.id p.total a.2 = false) {entry' : Pending} (hid : entry'.id = entry.id)
    (hparts : entry'.parts = entry.parts) (hstarted : entry'.started = entry.started)
    (hgot : ∀ k, entry'.got[k]? = (entry.got[k]?).or (a.stampsOf k)) :
    Entered start d (arrivals ++ [a]) entry' := by
  obtain ⟨old, recent, harrivals, hsince, hheld⟩ := h
  simp only [Pending.stale, Bool.or_eq_false_iff, bne_eq_false_iff_eq, decide_eq_false_iff_not,
    Nat.not_lt] at hfresh
  obtain ⟨⟨hsameId, hsameTotal⟩, htime⟩ := hfresh
  refine ⟨old, recent ++ [a], by rw [harrivals, List.append_assoc], ?_, fun k => ?_⟩
  · rw [hid, hparts, hstarted]
    constructor
    · exact hsince.opened
    · obtain ⟨packet, rest, hrecent, hsome⟩ := hsince.head
      exact ⟨packet, rest ++ [a], by rw [hrecent]; rfl, hsome⟩
    · intro b hb
      obtain hold | hnew := List.mem_append.mp hb
      · exact hsince.whole b hold
      · rw [List.mem_singleton.mp hnew]
        exact hwhole
    · intro b hb q hq
      obtain hold | hnew := List.mem_append.mp hb
      · exact hsince.parts b hold q hq
      · rw [List.mem_singleton.mp hnew] at hq ⊢
        rw [hpart] at hq
        cases hq
        exact ⟨hsameId.symm, hsameTotal.symm, htime, hone, hsameTotal ▸ hle⟩
    · exact hsince.stays_snoc (harrivals ▸ hentry) a
  · rw [hgot k, hheld k, firstOf_append, firstOf_single]

/-- A part that begins another snapshot, or the same one again. -/
theorem Entered.begin (hpart : partOf a.1 = some p) (hwhole : isWhole a.1 = false)
    (hone : 1 ≤ p.number) (hle : p.number ≤ p.total)
    (hopened : ∀ known, (pendingAfter start d arrivals)[d]? = some known →
      known.stale p.id p.total a.2) (hid : entry.id = p.id) (hparts : entry.parts = p.total)
    (hstarted : entry.started = a.2) (hgot : ∀ k, entry.got[k]? = a.stampsOf k) :
    Entered start d (arrivals ++ [a]) entry := by
  refine ⟨arrivals, [a], rfl, ?_, fun k => by rw [hgot k, firstOf_single]⟩
  rw [hid, hparts, hstarted]
  constructor
  · exact hopened
  · exact ⟨a.1, [], rfl, by rw [hpart]; rfl⟩
  · exact List.forall_mem_singleton.mpr hwhole
  · intro b hb q hq
    rw [List.mem_singleton.mp hb] at hq ⊢
    rw [hpart] at hq
    cases hq
    exact ⟨rfl, rfl, by omega, hone, hle⟩
  · -- There is nothing between the first packet and itself.
    intro first rest hsplit hfirst hrest
    obtain ⟨hnil, -⟩ | ⟨-, hnil⟩ := List.append_eq_singleton_iff.mp hsplit.symm
    · exact absurd hnil hfirst
    · exact absurd hnil hrest

/-- What a step leaves pending for the phone, and what it gives: an entry
whose every number is there. -/
def Keeps (start : KeyMap Pending) (d : String) (arrivals : List Arrival)
    (result : KeyMap Pending × Option (KeyMap String × Bool)) : Prop :=
  (∀ entry, result.1[d]? = some entry → Entered start d arrivals entry) ∧
    ∀ list sharing, result.2 = some (list, sharing) →
      ∃ entry, Entered start d arrivals entry ∧ entry.got.size = entry.parts ∧ list = entry.union

theorem settle_keeps (h : Entered start d arrivals entry) (pending : KeyMap Pending) :
    Keeps start d arrivals (settle pending d entry) := by
  unfold settle
  by_cases hsize : entry.got.size ≠ entry.parts
  · rw [if_pos hsize]
    refine ⟨fun other hother => ?_, fun list sharing hyield => (by cases hyield)⟩
    rw [getElem?_keyInsert, if_pos rfl] at hother
    exact Option.some.inj hother ▸ h
  · rw [if_neg hsize]
    refine ⟨fun other hother => ?_, fun list sharing hyield => ?_⟩
    · rw [getElem?_keyErase, if_pos rfl] at hother
      cases hother
    · cases hyield
      exact ⟨entry, h, not_not.mp hsize, rfl⟩

/-- One part. -/
theorem place_keeps (h : ∀ entry, (pendingAfter start d arrivals)[d]? = some entry →
      Entered start d arrivals entry) (hpart : partOf a.1 = some p) (hwhole : isWhole a.1 = false)
    (hone : 1 ≤ p.number) (hle : p.number ≤ p.total) :
    Keeps start d (arrivals ++ [a])
      (place (pendingAfter start d arrivals) d p.id p.number p.total p.stamps a.2) := by
  have hstamps : ∀ k, a.stampsOf k = if p.number = k then some p.stamps else none := by
    intro k
    rw [Arrival.stampsOf, hpart]
    rfl
  generalize hpending : pendingAfter start d arrivals = pending at h ⊢
  -- The entry before the part is put in, and what is known of one with it put in.
  obtain ⟨entry, hentry, hput⟩ : ∃ entry : Pending,
      ((pending[d]?).filter (fun known => !known.stale p.id p.total a.2)).getD
          { id := p.id, parts := p.total, got := ∅, uids := 0, started := a.2 } = entry ∧
        ∀ entry' : Pending, entry'.id = entry.id → entry'.parts = entry.parts →
          entry'.started = entry.started →
          (∀ k, entry'.got[k]? = (entry.got[k]?).or (a.stampsOf k)) →
          Entered start d (arrivals ++ [a]) entry' := by
    cases hknown : (pending[d]?).filter (fun known => !known.stale p.id p.total a.2) with
    | some known =>
      obtain ⟨hget, hfresh⟩ := Option.filter_eq_some_iff.mp hknown
      refine ⟨known, rfl, fun entry' hid hparts hstarted hgot => ?_⟩
      exact (h known hget).extend (by rw [hpending]; exact hget) hpart hwhole hone hle
        (by simpa using hfresh) hid hparts hstarted hgot
    | none =>
      refine ⟨_, rfl, fun entry' hid hparts hstarted hgot => ?_⟩
      refine Entered.begin hpart hwhole hone hle (fun known hget => ?_) hid hparts hstarted ?_
      · rw [hpending] at hget
        rw [hget, Option.filter_some] at hknown
        cases hstale : known.stale p.id p.total a.2 with
        | true => rfl
        | false => simp [hstale] at hknown
      · intro k
        rw [hgot k]
        simp
  unfold place
  rw [hentry]
  simp only
  by_cases hthere : entry.got.contains p.number = true
  · rw [if_pos hthere]
    refine settle_keeps (hput entry rfl rfl rfl (fun k => ?_)) _
    -- A part whose number came before is passed over.
    rw [hstamps k]
    by_cases hk : p.number = k
    · subst hk
      rw [Std.ExtTreeMap.contains_eq_isSome_getElem?] at hthere
      obtain ⟨first, hfirst⟩ := Option.isSome_iff_exists.mp hthere
      rw [hfirst]
      rfl
    · rw [if_neg hk, Option.or_none]
  · rw [if_neg hthere]
    by_cases hmany : maxContacts < entry.uids + p.stamps.size
    · rw [if_pos hmany]
      refine ⟨fun other hother => ?_, fun list sharing hyield => (by cases hyield)⟩
      rw [getElem?_keyErase, if_pos rfl] at hother
      cases hother
    · rw [if_neg hmany]
      refine settle_keeps (hput { entry with
        uids := entry.uids + p.stamps.size, got := entry.got.insert p.number p.stamps }
          rfl rfl rfl (fun k => ?_)) _
      show (entry.got.insert p.number p.stamps)[k]? = _
      rw [getElem?_idInsert, hstamps k]
      by_cases hk : p.number = k
      · subst hk
        have hnone : entry.got[p.number]? = none := by
          rw [Std.ExtTreeMap.contains_eq_isSome_getElem?] at hthere
          simpa using hthere
        rw [if_pos rfl, if_pos rfl, hnone]
        rfl
      · rw [if_neg hk, if_neg hk, Option.or_none]

/-- One packet, that is not a whole snapshot for what it gives. -/
theorem assemble_keeps (h : ∀ entry, (pendingAfter start d arrivals)[d]? = some entry →
      Entered start d arrivals entry) (a : Arrival) :
    (∀ entry, (pendingAfter start d (arrivals ++ [a]))[d]? = some entry →
        Entered start d (arrivals ++ [a]) entry) ∧
      ∀ list sharing, (assemble (pendingAfter start d arrivals) d a.1 a.2).2 = some (list, sharing) →
        isWhole a.1 = false → ∃ entry, Entered start d (arrivals ++ [a]) entry ∧
          entry.got.size = entry.parts ∧ list = entry.union := by
  rw [pendingAfter_snoc]
  obtain ⟨hpart, hwhole, heq⟩ | ⟨-, hwhole, stamps, sharing, heq⟩ |
    ⟨p, hpart, hwhole, hone, hle, heq⟩ := assemble_cases (pendingAfter start d arrivals) d a.1 a.2
  · rw [heq]
    exact ⟨fun entry hentry => (h entry hentry).ignore hentry hpart hwhole,
      fun list sharing hyield => (by cases hyield)⟩
  · rw [heq]
    refine ⟨fun entry hentry => ?_, fun list sharing _ hno => ?_⟩
    · rw [getElem?_keyErase, if_pos rfl] at hentry
      cases hentry
    · rw [hwhole] at hno
      cases hno
  · rw [heq]
    obtain ⟨hkept, hgiven⟩ := place_keeps h hpart hwhole hone hle
    exact ⟨hkept, fun list sharing hyield _ => hgiven list sharing hyield⟩

theorem entered_run (hstart : start[d]? = none) (arrivals : List Arrival) :
    ∀ entry, (pendingAfter start d arrivals)[d]? = some entry → Entered start d arrivals entry := by
  induction arrivals using List.reverseRecOn with
  | nil =>
    intro entry hentry
    rw [show pendingAfter start d [] = start from rfl, hstart] at hentry
    cases hentry
  | append_singleton arrivals a ih => exact (assemble_keeps ih a).1

theorem firstOf_range {started : Nat} (h : Since start d old recent id total started) {k : Nat}
    {stamps : KeyMap String} (hk : firstOf recent k = some stamps) : 1 ≤ k ∧ k ≤ total := by
  obtain ⟨a, ha, hstamps⟩ := List.exists_of_findSome?_eq_some hk
  obtain ⟨p, hp, hsome⟩ := Option.bind_eq_some_iff.mp hstamps
  split at hsome
  · rename_i hnumber
    obtain ⟨-, -, -, hone, hle⟩ := h.parts a ha p hp
    exact hnumber ▸ ⟨hone, hle⟩
  · cases hsome

/-- A snapshot that is given in parts is complete: every number came since
it became the pending one, and it is the union of the first of each. -/
theorem given_complete (hstart : start[d]? = none) (arrivals : List Arrival) (a : Arrival)
    {list : KeyMap String} {sharing : Bool}
    (hgiven : (assemble (pendingAfter start d arrivals) d a.1 a.2).2 = some (list, sharing))
    (hwhole : isWhole a.1 = false) :
    ∃ old recent id total started, arrivals ++ [a] = old ++ recent ∧
      Since start d old recent id total started ∧
      (∀ k, 1 ≤ k → k ≤ total → (firstOf recent k).isSome) ∧ Union (firstOf recent) list := by
  obtain ⟨entry, ⟨old, recent, harrivals, hsince, hgot⟩, hsize, rfl⟩ :=
    (assemble_keeps (entered_run hstart arrivals) a).2 list sharing hgiven hwhole
  have hsame : (fun k => entry.got[k]?) = firstOf recent := funext hgot
  refine ⟨old, recent, entry.id, entry.parts, entry.started, harrivals, hsince, ?_, ?_⟩
  · intro k hone hle
    have hrange (k : Nat) (v : KeyMap String) (hv : entry.got[k]? = some v) :
        1 ≤ k ∧ k ≤ entry.parts := by
      rw [hgot k] at hv
      exact firstOf_range hsince hv
    obtain ⟨v, hv⟩ := all_there hrange hsize hone hle
    rw [← hgot k, hv]
    rfl
  · rw [← hsame]
    exact union_spec entry

/-! ### From a snapshot to the last reply -/

/-- The requests are for all of the uids, in their order. -/
theorem flatten_requestChunks (chunk : List String) (size : Nat) (uids : List String) :
    (requestChunks chunk size uids).flatten = chunk ++ uids := by
  induction uids generalizing chunk size with
  | nil =>
    simp only [requestChunks]
    split
    · rename_i hchunk
      rw [hchunk]
      rfl
    · rw [List.flatten_singleton, List.append_nil]
  | cons uid uids ih =>
    simp only [requestChunks]
    split
    · rw [List.flatten_append, ih]
      split
      · rename_i hchunk
        rw [hchunk]
        rfl
      · rw [List.flatten_singleton]
        rfl
    · rw [ih, List.append_assoc]
      rfl

/-- The book has what the snapshot lists or wants it, and nothing else. -/
structure Following (snapshot : KeyMap String) (book : Book) : Prop where
  listed : ∀ uid : String, (book.contacts[uid]?).isSome → (snapshot[uid]?).isSome
  stamped : ∀ uid : String, (book.stamps[uid]?).isSome → (snapshot[uid]?).isSome
  wanted : ∀ uid stamp : String, book.wanted[uid]? = some stamp → snapshot[uid]? = some stamp
  has : ∀ uid stamp : String, snapshot[uid]? = some stamp → book.wanted[uid]? = none →
    (book.contacts[uid]?).isSome ∧ book.stamps[uid]? = some stamp

theorem isSome_keep {V : Type} {m : KeyMap V} {snapshot : KeyMap String}
    (h : ((m.filter (fun uid _ => snapshot.contains uid))[uid]?).isSome) :
    (snapshot[uid]?).isSome := by
  obtain ⟨v, hv⟩ := Option.isSome_iff_exists.mp h
  have hin := (keyFilter_eq_some.mp hv).2
  rw [Std.ExtTreeMap.contains_eq_isSome_getElem?] at hin
  exact hin

/-- The loop over the snapshot asks for what is not current. -/
theorem askFor_fold (kept : Book) (entries : List (String × String))
    (hnodup : (entries.map Prod.fst).Nodup) (hnone : ∀ uid : String, kept.wanted[uid]? = none) :
    let state := entries.foldl askFor (kept, [])
    state.1.contacts = kept.contacts ∧ state.1.stamps = kept.stamps ∧
      (∀ uid stamp : String, state.1.wanted[uid]? = some stamp ↔
        (uid, stamp) ∈ entries ∧ kept.isCurrent uid stamp = false) ∧
      ∀ uid, uid ∈ state.2 ↔ (state.1.wanted[uid]?).isSome := by
  induction entries using List.reverseRecOn with
  | nil => exact ⟨rfl, rfl, fun uid stamp => by simp [hnone], fun uid => by simp [hnone]⟩
  | append_singleton entries e ih =>
    rw [List.map_append, List.nodup_append] at hnodup
    obtain ⟨hentries, -, hdisjoint⟩ := hnodup
    obtain ⟨hcontacts, hstamps, hwanted, hask⟩ := ih hentries
    intro state
    have hnew : ∀ stamp, (e.1, stamp) ∉ entries := by
      intro stamp hmem
      exact hdisjoint e.1 (List.mem_map.mpr ⟨(e.1, stamp), hmem, rfl⟩) e.1 List.mem_cons_self rfl
    have hstep : state = askFor (entries.foldl askFor (kept, [])) e := by
      show (entries ++ [e]).foldl askFor (kept, []) = _
      rw [List.foldl_append]
      rfl
    generalize entries.foldl askFor (kept, []) = before at hcontacts hstamps hwanted hask hstep
    have hsame : before.1.isCurrent e.1 e.2 = kept.isCurrent e.1 e.2 := by
      unfold Book.isCurrent
      rw [hcontacts, hstamps]
    unfold askFor at hstep
    rw [hsame] at hstep
    by_cases hcurrent : kept.isCurrent e.1 e.2 = true
    · rw [if_pos hcurrent] at hstep
      rw [hstep]
      refine ⟨hcontacts, hstamps, fun uid stamp => ?_, hask⟩
      rw [hwanted, List.mem_append, List.mem_singleton]
      constructor
      · exact fun h => ⟨.inl h.1, h.2⟩
      · rintro ⟨hmem | rfl, hno⟩
        · exact ⟨hmem, hno⟩
        · rw [hcurrent] at hno
          cases hno
    · rw [if_neg hcurrent] at hstep
      rw [hstep]
      refine ⟨hcontacts, hstamps, fun uid stamp => ?_, fun uid => ?_⟩
      · rw [getElem?_keyInsert, List.mem_append, List.mem_singleton]
        by_cases huid : e.1 = uid
        · subst huid
          rw [if_pos rfl]
          constructor
          · intro h
            cases h
            exact ⟨.inr rfl, eq_false_of_ne_true hcurrent⟩
          · rintro ⟨hmem | heq, -⟩
            · exact absurd hmem (hnew stamp)
            · exact congrArg (fun x : String × String => some x.2) heq.symm
        · rw [if_neg huid, hwanted]
          constructor
          · exact fun h => ⟨.inl h.1, h.2⟩
          · rintro ⟨hmem | rfl, hno⟩
            · exact ⟨hmem, hno⟩
            · exact absurd rfl huid
      · rw [getElem?_keyInsert, List.mem_append, List.mem_singleton, hask]
        by_cases huid : e.1 = uid
        · rw [if_pos huid]
          exact ⟨fun _ => rfl, fun _ => .inr huid.symm⟩
        · rw [if_neg huid]
          exact ⟨fun h => h.resolve_right (Ne.symm huid), .inl⟩

/-- What a snapshot makes of any book. -/
theorem applySnapshot_follows (book : Book) (snapshot : KeyMap String) :
    Following snapshot (applySnapshot book snapshot).1 ∧
      ∀ uid, uid ∈ (applySnapshot book snapshot).2
        ↔ ((applySnapshot book snapshot).1.wanted[uid]?).isSome := by
  have hempty : ∀ uid : String, (book.keep snapshot).wanted[uid]? = none := fun uid => by
    simp [Book.keep]
  obtain ⟨hcontacts, hstamps, hwanted, hask⟩ :=
    askFor_fold (book.keep snapshot) snapshot.toList (nodup_keys_toList snapshot) hempty
  refine ⟨⟨fun uid h => ?_, fun uid h => ?_, fun uid stamp h => ?_, fun uid stamp h hno => ?_⟩, hask⟩
  · unfold applySnapshot at h
    rw [hcontacts] at h
    exact isSome_keep h
  · unfold applySnapshot at h
    rw [hstamps] at h
    exact isSome_keep h
  · exact (mem_toList_iff snapshot (uid, stamp)).mp ((hwanted uid stamp).mp h).1
  · -- What is listed and not wanted is current.
    have hcurrent : (book.keep snapshot).isCurrent uid stamp = true := by
      cases hkept : (book.keep snapshot).isCurrent uid stamp with
      | true => rfl
      | false =>
        have hsome := (hwanted uid stamp).mpr ⟨(mem_toList_iff snapshot (uid, stamp)).mpr h, hkept⟩
        unfold applySnapshot at hno
        rw [hsome] at hno
        cases hno
    unfold applySnapshot
    rw [hcontacts, hstamps]
    unfold Book.isCurrent at hcurrent
    rw [Bool.and_eq_true, Std.ExtTreeMap.contains_eq_isSome_getElem?, Option.any_eq_true] at hcurrent
    obtain ⟨hin, known, hknown, heq⟩ := hcurrent
    exact ⟨hin, by rw [hknown, beq_iff_eq.mp heq]⟩

variable {parse : String → String → Option Contact} {snapshot : KeyMap String}
variable {book : Book} {replies : List Packet}

variable (parse) in
/-- The packet has a card for this uid that is kept. -/
def Accepts (packet : Packet) (uid : String) : Prop :=
  ∃ card contact, packet.getStr uid = some card ∧ card.utf8ByteSize ≤ maxVcardBytes ∧
    parse uid card = some contact

/-- One uid of a reply: it is wanted no more, and the others are as before. -/
theorem applyVcard_follows {state : Applying} (h : Following snapshot state.book)
    (haccepts : (state.book.wanted[uid]?).isSome → Accepts parse packet uid) :
    Following snapshot (applyVcard parse packet state uid).book ∧
      ∀ other : String, (applyVcard parse packet state uid).book.wanted[other]?
        = if uid = other then none else state.book.wanted[other]? := by
  unfold applyVcard
  cases hwanted : state.book.wanted[uid]? with
  | none =>
    refine ⟨h, fun other => ?_⟩
    by_cases heq : uid = other
    · rw [if_pos heq, ← heq]
      exact hwanted
    · rw [if_neg heq]
  | some stamp =>
    obtain ⟨card, contact, hcard, hsize, hparse⟩ := haccepts (by rw [hwanted]; rfl)
    have hlisted := h.wanted uid stamp hwanted
    simp only [hcard, Option.filter_some, decide_eq_true hsize, if_true, hparse]
    refine ⟨⟨fun other => ?_, fun other => ?_, fun other known => ?_, fun other known => ?_⟩,
      fun other => getElem?_keyErase _ _ _⟩
    · simp only [getElem?_keyInsert]
      split
      · rename_i heq
        rw [← heq, hlisted]
        exact fun _ => rfl
      · exact h.listed other
    · simp only [getElem?_keyInsert]
      split
      · rename_i heq
        rw [← heq, hlisted]
        exact fun _ => rfl
      · exact h.stamped other
    · simp only [getElem?_keyErase]
      split
      · exact fun hnone => (by cases hnone)
      · exact h.wanted other known
    · simp only [getElem?_keyErase, getElem?_keyInsert]
      by_cases heq : uid = other
      · subst heq
        simp only [if_true]
        intro hknown _
        rw [hlisted] at hknown
        exact ⟨rfl, hknown⟩
      · simp only [if_neg heq]
        exact h.has other known

/-- A reply. -/
theorem applyVcards_follows (h : Following snapshot book)
    (haccepts : ∀ uids, packet.uids = some uids → ∀ uid ∈ uids, (book.wanted[uid]?).isSome →
      Accepts parse packet uid) : Following snapshot (applyVcards parse book packet).1 ∧
      ∀ uid stamp : String, (applyVcards parse book packet).1.wanted[uid]? = some stamp →
        book.wanted[uid]? = some stamp ∧ ∀ uids, packet.uids = some uids → uid ∉ uids := by
  unfold applyVcards
  cases huids : packet.uids with
  | none => exact ⟨h, fun uid stamp hwanted => ⟨hwanted, fun uids hno => (by cases hno)⟩⟩
  | some uids =>
    simp only
    have hloop : ∀ (uids : List String) (state : Applying), Following snapshot state.book →
        (∀ uid ∈ uids, (state.book.wanted[uid]?).isSome → Accepts parse packet uid) →
        Following snapshot (uids.foldl (applyVcard parse packet) state).book ∧
          ∀ uid stamp : String,
            (uids.foldl (applyVcard parse packet) state).book.wanted[uid]? = some stamp →
            state.book.wanted[uid]? = some stamp ∧ uid ∉ uids := by
      intro uids
      induction uids with
      | nil => exact fun state hstate _ => ⟨hstate, fun uid stamp hw => ⟨hw, List.not_mem_nil⟩⟩
      | cons first uids ih =>
        intro state hstate hall
        obtain ⟨hnext, hkept⟩ :=
          applyVcard_follows hstate (hall first List.mem_cons_self)
        have hrest : ∀ uid ∈ uids, ((applyVcard parse packet state first).book.wanted[uid]?).isSome →
            Accepts parse packet uid := by
          intro uid huid hsome
          rw [hkept] at hsome
          split at hsome
          · cases hsome
          · exact hall uid (List.mem_cons_of_mem _ huid) hsome
        obtain ⟨hdone, hleft⟩ := ih _ hnext hrest
        refine ⟨hdone, fun uid stamp hw => ?_⟩
        obtain ⟨hbefore, hnot⟩ := hleft uid stamp hw
        rw [hkept] at hbefore
        split at hbefore
        · cases hbefore
        · rename_i hne
          exact ⟨hbefore, fun hmem => (List.mem_cons.mp hmem).elim (Ne.symm hne) hnot⟩
    obtain ⟨hdone, hleft⟩ := hloop uids ⟨book, _, false⟩ h (haccepts uids huids)
    refine ⟨hdone, fun uid stamp hw => ?_⟩
    obtain ⟨hbefore, hnot⟩ := hleft uid stamp hw
    refine ⟨hbefore, fun other hother => ?_⟩
    cases hother
    exact hnot

variable (parse) in
/-- The book after the replies. -/
def answered (book : Book) (replies : List Packet) : Book :=
  replies.foldl (fun book packet => (applyVcards parse book packet).1) book

/-- What is still wanted after the replies was in none of them. -/
theorem answered_follows (h : Following snapshot book)
    (haccepts : ∀ packet ∈ replies, ∀ uids, packet.uids = some uids → ∀ uid ∈ uids,
      (book.wanted[uid]?).isSome → Accepts parse packet uid) :
    Following snapshot (answered parse book replies) ∧
      ∀ uid stamp : String, (answered parse book replies).wanted[uid]? = some stamp →
        book.wanted[uid]? = some stamp ∧
          ∀ packet ∈ replies, ∀ uids, packet.uids = some uids → uid ∉ uids := by
  induction replies generalizing book with
  | nil => exact ⟨h, fun uid stamp hw => ⟨hw, fun packet hp => (by cases hp)⟩⟩
  | cons first replies ih =>
    obtain ⟨hnext, hkept⟩ := applyVcards_follows h (haccepts first List.mem_cons_self)
    have hrest : ∀ packet ∈ replies, ∀ uids, packet.uids = some uids → ∀ uid ∈ uids,
        (((applyVcards parse book first).1).wanted[uid]?).isSome → Accepts parse packet uid := by
      intro packet hpacket uids huids uid huid hsome
      obtain ⟨stamp, hstamp⟩ := Option.isSome_iff_exists.mp hsome
      refine haccepts packet (List.mem_cons_of_mem _ hpacket) uids huids uid huid ?_
      rw [(hkept uid stamp hstamp).1]
      rfl
    obtain ⟨hdone, hleft⟩ := ih hnext hrest
    refine ⟨hdone, fun uid stamp hw => ?_⟩
    obtain ⟨hbefore, hnone⟩ := hleft uid stamp hw
    obtain ⟨hfirst, hnot⟩ := hkept uid stamp hbefore
    exact ⟨hfirst, List.forall_mem_cons.mpr ⟨hnot, hnone⟩⟩

/-- The replies are to all of these requests, and every card that was asked
for is kept. -/
structure Replies (parse : String → String → Option Contact) (requests : List (List String))
    (replies : List Packet) : Prop where
  answered : ∀ request ∈ requests, ∀ uid ∈ request,
    ∃ packet ∈ replies, ∃ uids, packet.uids = some uids ∧ uid ∈ uids
  accepted : ∀ packet ∈ replies, ∀ uids, packet.uids = some uids → ∀ uid ∈ uids,
    (∃ request ∈ requests, uid ∈ request) → Accepts parse packet uid

/-- A book after a snapshot and all the replies to what it asked for has
exactly the uids that are listed, each with its stamp. -/
theorem book_follows (book : Book) (list : KeyMap String)
    (h : Replies parse (vcardRequests (applySnapshot book list).2) replies) (uid : String) :
    let last := answered parse (applySnapshot book list).1 replies
    ((last.contacts[uid]?).isSome ↔ (list[uid]?).isSome) ∧ last.stamps[uid]? = list[uid]? := by
  intro last
  obtain ⟨hfollows, hask⟩ := applySnapshot_follows book list
  have hrequested : ∀ uid, uid ∈ (applySnapshot book list).2 →
      ∃ request ∈ vcardRequests (applySnapshot book list).2, uid ∈ request := by
    intro uid huid
    have hflat := flatten_requestChunks [] 0 (applySnapshot book list).2
    rw [List.nil_append] at hflat
    rw [← hflat] at huid
    exact List.mem_flatten.mp huid
  obtain ⟨hlast, hleft⟩ := answered_follows hfollows
    (fun packet hpacket uids huids uid huid hsome =>
      h.accepted packet hpacket uids huids uid huid (hrequested uid ((hask uid).mpr hsome)))
  -- Nothing is wanted any more.
  have hnone : ∀ uid : String, last.wanted[uid]? = none := by
    intro uid
    cases hw : last.wanted[uid]? with
    | none => rfl
    | some stamp =>
      obtain ⟨hbefore, hnot⟩ := hleft uid stamp hw
      have hasked := hrequested uid ((hask uid).mpr (by rw [hbefore]; rfl))
      obtain ⟨request, hrequest, huid⟩ := hasked
      obtain ⟨packet, hpacket, uids, huids, hmem⟩ := h.answered request hrequest uid huid
      exact absurd hmem (hnot packet hpacket uids huids)
  cases hlist : list[uid]? with
  | some stamp =>
    obtain ⟨hcontact, hstamp⟩ := hlast.has uid stamp hlist (hnone uid)
    exact ⟨⟨fun _ => rfl, fun _ => hcontact⟩, hstamp⟩
  | none =>
    have hno : ∀ {V : Type} {m : KeyMap V}, ((m[uid]?).isSome → (list[uid]?).isSome) →
        m[uid]? = none := by
      intro V m himp
      cases hm : m[uid]? with
      | none => rfl
      | some v =>
        have hsome := himp (by rw [hm]; rfl)
        rw [hlist] at hsome
        cases hsome
    have hcontact := hno (hlast.listed uid)
    refine ⟨?_, hno (hlast.stamped uid)⟩
    show (last.contacts[uid]?).isSome ↔ _
    rw [hcontact]
    exact ⟨fun hsome => (by cases hsome), fun hsome => (by cases hsome)⟩

/-- Contacts are deleted on a complete snapshot only: what is given of parts
is complete and is their union, and a book that follows it ends with exactly
what it lists. -/
theorem complete_only (parse : String → String → Option Contact) (start : KeyMap Pending)
    (d : String) (hstart : start[d]? = none) :
    (∀ (arrivals : List Arrival) (a : Arrival) (list : KeyMap String) (sharing : Bool),
      (assemble (pendingAfter start d arrivals) d a.1 a.2).2 = some (list, sharing) →
      isWhole a.1 = false →
      ∃ old recent id total started, arrivals ++ [a] = old ++ recent ∧
        Since start d old recent id total started ∧
        (∀ k, 1 ≤ k → k ≤ total → (firstOf recent k).isSome) ∧ Union (firstOf recent) list) ∧
    ∀ (book : Book) (list : KeyMap String) (replies : List Packet),
      Replies parse (vcardRequests (applySnapshot book list).2) replies → ∀ uid : String,
      (((answered parse (applySnapshot book list).1 replies).contacts[uid]?).isSome
        ↔ (list[uid]?).isSome) ∧
      (answered parse (applySnapshot book list).1 replies).stamps[uid]? = list[uid]? :=
  ⟨fun arrivals a _ _ hgiven hwhole => given_complete hstart arrivals a hgiven hwhole,
    fun book list _ h uid => book_follows book list h uid⟩

/-- A part of a snapshot of two, with one uid. -/
def partPacket (number : Int) (uid : String) : Packet :=
  ⟨collect [("snapshot", .str "s1"), ("part", .num (toString number) (some number)), ("parts", .num "2" (some 2)),
    ("uids", .arr [some uid]), (uid, .str "1")]⟩

/-- A reply with two cards. -/
def twoCards : Packet :=
  ⟨collect [("uids", .arr [some "a", some "b"]), ("a", .str "FN:Ann"), ("b", .str "FN:Ann")]⟩

/-- A parser of one card. -/
def parseAnn (uid card : String) : Option Contact :=
  if card = "FN:Ann" then some { uid, name := "Ann" } else none

/-- Two parts come and are given, and a reply fills the book. -/
theorem complete_only_two :
    (∃ list sharing, (assemble (pendingAfter ∅ "phone" [(partPacket 1 "a", 0)]) "phone"
        (partPacket 2 "b") 5).2 = some (list, sharing) ∧
      ∃ old recent id total started,
        [(partPacket 1 "a", 0)] ++ [(partPacket 2 "b", 5)] = old ++ recent ∧
        Since ∅ "phone" old recent id total started ∧
        (∀ k, 1 ≤ k → k ≤ total → (firstOf recent k).isSome) ∧ Union (firstOf recent) list) ∧
    (answered parseAnn (applySnapshot {} (collect [("a", "1"), ("b", "1")])).1
      [twoCards]).stamps["b"]? = (collect [("a", "1"), ("b", "1")])["b"]? := by
  have hstart : (∅ : KeyMap Pending)["phone"]? = none := by simp
  have hsome : (assemble (pendingAfter ∅ "phone" [(partPacket 1 "a", 0)]) "phone"
      (partPacket 2 "b") 5).2.isSome = true := by decide +kernel
  have hrequests : vcardRequests (applySnapshot {} (collect [("a", "1"), ("b", "1")])).2
      = [["a", "b"]] := by decide +kernel
  have huids : twoCards.uids = some ["a", "b"] := by decide +kernel
  have hreplies : Replies parseAnn
      (vcardRequests (applySnapshot {} (collect [("a", "1"), ("b", "1")])).2) [twoCards] := by
    rw [hrequests]
    constructor
    · intro request hrequest uid huid
      rw [List.mem_singleton.mp hrequest] at huid
      exact ⟨twoCards, List.mem_cons_self, ["a", "b"], huids, huid⟩
    · intro packet hpacket uids hu uid huid _
      rw [List.mem_singleton.mp hpacket] at hu ⊢
      rw [huids] at hu
      cases hu
      have hcards : ∀ uid ∈ ["a", "b"], twoCards.getStr uid = some "FN:Ann" := by decide +kernel
      exact ⟨"FN:Ann", { uid, name := "Ann" }, hcards uid huid, by decide, rfl⟩
  obtain ⟨⟨list, sharing⟩, hgiven⟩ := Option.isSome_iff_exists.mp hsome
  refine ⟨⟨list, sharing, hgiven, ?_⟩, ?_⟩
  · exact (complete_only parseAnn ∅ "phone" hstart).1 _ (partPacket 2 "b", 5) list sharing hgiven
      (by decide +kernel)
  · exact ((complete_only parseAnn ∅ "phone" hstart).2 {} _ [twoCards] hreplies "b").2

end DeskLink.Contacts
