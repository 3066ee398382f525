import DeskLink.Notes.Exchange
import DeskLink.Proofs.Notes.Caps

/-!
# `DeskLink.Proofs.Notes.Split`: packets that are read whole

The senders split by bytes, and the receiver reads so many entries of a
packet (`Packet.examined`). `Packets.Whole` is what a split is for: the
packets together carry the list, each is within its budget, and each is
read whole.

An index entry takes 37 bytes at least, so the two limits of an index
agree. A note can take less than 200 bytes, so those of an `items` packet
do not. A batch is read whole when, its values laid out in order and a
new stretch begun where the next value would pass the budget, no stretch
has more than 200 (`Stretches`):

* `packets_whole_iff`: the split of notes, of snippets and of an index is
  whole exactly then, and when every index entry fits a packet.
* `handleFrom_answers_examined`: what answers a packet is always read
  whole, since it answers at most 200 entries.
* `deletions_cut_off`: of 201 deletions in one packet the last is lost.
-/

set_option autoImplicit false

namespace DeskLink.Notes

/-! ### Greedy stretches -/

/-- The costs in order, a new stretch begun at each that would take the
stretch past `budget`: no stretch has more than `limit` of them. -/
inductive Stretches (budget limit : Nat) : List Nat → Prop where
  | last (stretch : List Nat) (hsum : stretch.sum ≤ budget) (hlength : stretch.length ≤ limit) :
      Stretches budget limit stretch
  | next (stretch : List Nat) (c : Nat) (rest : List Nat) (hsum : stretch.sum ≤ budget)
      (hfull : budget < stretch.sum + c) (hlength : stretch.length ≤ limit)
      (hrest : Stretches budget limit (c :: rest)) : Stretches budget limit (stretch ++ c :: rest)

namespace Stretches
variable {budget limit : Nat}

/-- Costs that fit together are one stretch. -/
theorem length_le {costs : List Nat} (h : Stretches budget limit costs)
    (hsum : costs.sum ≤ budget) : costs.length ≤ limit := by
  cases h with
  | last _ _ hlength => exact hlength
  | next stretch c rest _ hfull _ _ =>
    rw [List.sum_append, List.sum_cons] at hsum
    omega

/-- The first stretch ends where the next cost would pass the budget. -/
theorem first {stretch rest : List Nat} {c : Nat} (h : Stretches budget limit (stretch ++ c :: rest))
    (hsum : stretch.sum ≤ budget) (hfull : budget < stretch.sum + c) :
    stretch.length ≤ limit ∧ Stretches budget limit (c :: rest) := by
  generalize hcosts : stretch ++ c :: rest = costs at h
  cases h with
  | last _ hsum' _ =>
    rw [← hcosts, List.sum_append, List.sum_cons] at hsum'
    omega
  | next stretch' c' rest' hsum' hfull' hlength hrest =>
    -- Of the two first stretches one is a prefix of the other.
    cases List.append_eq_append_iff.mp hcosts with
    | inl hlonger =>
      obtain ⟨more, hmore, hrest'⟩ := hlonger
      cases more with
      | nil =>
        rw [List.append_nil] at hmore
        rw [List.nil_append] at hrest'
        rw [hmore] at hlength
        rw [← hrest'] at hrest
        exact ⟨hlength, hrest⟩
      | cons d more =>
        obtain ⟨rfl, -⟩ := List.cons.inj hrest'
        rw [hmore, List.sum_append, List.sum_cons] at hsum'
        omega
    | inr hshorter =>
      obtain ⟨more, hmore, hrest'⟩ := hshorter
      cases more with
      | nil =>
        rw [List.append_nil] at hmore
        rw [List.nil_append] at hrest'
        rw [← hmore] at hlength
        rw [hrest'] at hrest
        exact ⟨hlength, hrest⟩
      | cons d more =>
        obtain ⟨rfl, -⟩ := List.cons.inj hrest'
        rw [hmore, List.sum_append, List.sum_cons] at hsum
        omega

end Stretches

/-! ### The bytes and the lengths of the parts -/

section Parts
variable {α : Type} {length : α → Nat}

/-- The bytes that a batch takes in its packet, as the splitting loops
count them: a separator after each value. -/
def batchBytes (length : α → Nat) (batch : List α) : Nat :=
  (batch.map (fun value => length value + 1)).sum

theorem batchBytes_append (batch batch' : List α) :
    batchBytes length (batch ++ batch') = batchBytes length batch + batchBytes length batch' := by
  simp [batchBytes]

theorem batchBytes_singleton (value : α) : batchBytes length [value] = length value + 1 := by
  simp [batchBytes]

/-- A batch never passes the budget. -/
theorem splitItems_bytes (values batch : List α)
    (hbatch : batchBytes length batch ≤ maxPacketBytes - packetOverhead) :
    ∀ part ∈ splitItems length values batch (batchBytes length batch),
      batchBytes length part ≤ maxPacketBytes - packetOverhead := by
  induction values generalizing batch with
  | nil =>
    intro part hpart
    unfold splitItems at hpart
    split at hpart
    · cases hpart
    · rw [List.mem_singleton.mp hpart]
      exact hbatch
  | cons value rest ih =>
    intro part hpart
    unfold splitItems at hpart
    simp only at hpart
    split at hpart
    · exact ih batch hbatch part hpart
    · rename_i hfits
      have hvalue : batchBytes length [value] ≤ maxPacketBytes - packetOverhead := by
        rw [batchBytes_singleton]
        omega
      split at hpart
      · cases List.mem_append.mp hpart with
        | inl hclosed =>
          split at hclosed
          · cases hclosed
          · rw [List.mem_singleton.mp hclosed]
            exact hbatch
        | inr hnext =>
          rw [← batchBytes_singleton] at hnext
          exact ih [value] hvalue part hnext
      · rename_i hroom
        have hlonger : batchBytes length (batch ++ [value]) ≤ maxPacketBytes - packetOverhead := by
          rw [batchBytes_append, batchBytes_singleton]
          omega
        rw [← batchBytes_singleton, ← batchBytes_append] at hpart
        exact ih (batch ++ [value]) hlonger part hpart

/-- The parts have at most `limit` values each exactly when the stretches
have. -/
theorem splitItems_length_iff (limit : Nat) (values batch : List α)
    (hfits : ∀ value ∈ values, fitsPacket length value = true)
    (hbatch : batchBytes length batch ≤ maxPacketBytes - packetOverhead) :
    (∀ part ∈ splitItems length values batch (batchBytes length batch), part.length ≤ limit) ↔
      Stretches (maxPacketBytes - packetOverhead) limit
        ((batch ++ values).map (fun value => length value + 1)) := by
  induction values generalizing batch with
  | nil =>
    rw [List.append_nil]
    unfold splitItems
    constructor
    · intro h
      refine .last _ hbatch ?_
      rw [List.length_map]
      cases batch with
      | nil => exact Nat.zero_le limit
      | cons value batch => exact h _ (List.mem_singleton_self _)
    · intro h part hpart
      have hlength := h.length_le hbatch
      rw [List.length_map] at hlength
      split at hpart
      · cases hpart
      · rw [List.mem_singleton.mp hpart]
        exact hlength
  | cons value rest ih =>
    obtain ⟨hvalue, hrest⟩ := List.forall_mem_cons.mp hfits
    have hone : batchBytes length [value] ≤ maxPacketBytes - packetOverhead := by
      rw [batchBytes_singleton]
      simpa [fitsPacket] using hvalue
    have hone' : batchBytes length [value] = length value + 1 := batchBytes_singleton value
    unfold splitItems
    simp only
    rw [if_neg (by omega)]
    split
    · rename_i hfull
      -- The packet is closed: `value` begins the next one.
      have hcons : batch ≠ [] := by
        intro hnil
        subst hnil
        have hzero : batchBytes length ([] : List α) = 0 := rfl
        omega
      have hfirst : (if batch.isEmpty then [] else [batch]) = [batch] := by
        rw [List.isEmpty_eq_false_iff.mpr hcons]
        rfl
      have hnext := ih [value] hrest hone
      rw [batchBytes_singleton] at hnext
      rw [hfirst, List.map_append, List.map_cons, List.singleton_append, List.forall_mem_cons, hnext]
      constructor
      · intro h
        refine .next _ _ _ hbatch hfull ?_ h.2
        rw [List.length_map]
        exact h.1
      · intro h
        have hparts := h.first hbatch hfull
        rw [List.length_map] at hparts
        exact hparts
    · rename_i hroom
      have hlonger : batchBytes length (batch ++ [value]) ≤ maxPacketBytes - packetOverhead := by
        rw [batchBytes_append]
        omega
      have hmore := ih (batch ++ [value]) hrest hlonger
      rw [batchBytes_append, batchBytes_singleton, List.append_assoc, List.singleton_append] at hmore
      exact hmore

/-- No part has more values than there are. -/
theorem splitItems_length_le (values batch : List α) (size : Nat) :
    ∀ part ∈ splitItems length values batch size, part.length ≤ batch.length + values.length := by
  intro part hpart
  have hflat := splitItems_flatten length values batch size
  have hsub : part.Sublist (splitItems length values batch size).flatten :=
    List.sublist_flatten_of_mem hpart
  have hlength := hsub.length_le
  rw [hflat, List.length_append] at hlength
  have hfilter := List.length_filter_le (fitsPacket length) values
  omega

/-- A part of an index is within its budget, or has the one entry that is
over it. -/
theorem splitIndex_bytes (entries part : List α)
    (hpart : batchBytes length part ≤ indexBudget ∨ part.length = 1) :
    ∀ p ∈ splitIndex length entries part (batchBytes length part),
      batchBytes length p ≤ indexBudget ∨ p.length = 1 := by
  induction entries generalizing part with
  | nil =>
    intro p hp
    rw [List.mem_singleton.mp hp]
    exact hpart
  | cons entry rest ih =>
    intro p hp
    have hone : batchBytes length [entry] = length entry + 1 := batchBytes_singleton entry
    unfold splitIndex at hp
    simp only at hp
    split at hp
    · cases List.mem_cons.mp hp with
      | inl hclosed =>
        rw [hclosed]
        exact hpart
      | inr hnext =>
        rw [← hone] at hnext
        exact ih [entry] (.inr rfl) p hnext
    · rename_i hroom
      rw [← hone, ← batchBytes_append] at hp
      refine ih (part ++ [entry]) ?_ p hp
      cases part with
      | nil => exact .inr rfl
      | cons first part =>
        left
        rw [batchBytes_append]
        by_contra hover
        exact hroom ⟨by omega, by simp⟩

/-- The parts of an index are within its budget exactly when each entry is. -/
theorem splitIndex_bytes_iff (entries : List α) :
    (∀ p ∈ splitIndex length entries [] 0, batchBytes length p ≤ indexBudget) ↔
      ∀ e ∈ entries, length e + 1 ≤ indexBudget := by
  have hflat := splitIndex_flatten length entries [] 0
  rw [List.nil_append] at hflat
  constructor
  · intro h e he
    rw [← hflat] at he
    obtain ⟨p, hp, hep⟩ := List.mem_flatten.mp he
    have hle : length e + 1 ≤ batchBytes length p :=
      List.single_le_sum (by simp) _ (List.mem_map_of_mem hep)
    exact le_trans hle (h p hp)
  · intro h p hp
    cases splitIndex_bytes entries [] (.inl (Nat.zero_le _)) p hp with
    | inl hbytes => exact hbytes
    | inr hsingle =>
      obtain ⟨e, rfl⟩ := List.length_eq_one_iff.mp hsingle
      rw [batchBytes_singleton]
      refine h e ?_
      rw [← hflat]
      exact List.mem_flatten.mpr ⟨[e], hp, List.mem_singleton_self e⟩

theorem chunksFrom_length {n : Nat} (l part : List α) (hpart : part.length < n) :
    ∀ chunk ∈ chunksFrom n l part, chunk.length ≤ n := by
  induction l generalizing part with
  | nil =>
    intro chunk hchunk
    unfold chunksFrom at hchunk
    split at hchunk
    · cases hchunk
    · rw [List.mem_singleton.mp hchunk]
      omega
  | cons x rest ih =>
    intro chunk hchunk
    unfold chunksFrom at hchunk
    split at hchunk
    · rename_i hfull
      cases List.mem_cons.mp hchunk with
      | inl hclosed =>
        rw [hclosed, List.length_append]
        exact le_of_eq hfull
      | inr hnext => exact ih [] (by simp only [List.length_nil]; omega) chunk hnext
    · rename_i hroom
      refine ih (part ++ [x]) ?_ chunk hchunk
      rw [List.length_append, List.length_singleton]
      omega

theorem chunksOf_length {n : Nat} (hn : 0 < n) (l : List α) :
    ∀ chunk ∈ chunksOf n l, chunk.length ≤ n :=
  chunksFrom_length l [] hn

end Parts

/-! ### What is read of a packet -/

/-- The part of a packet that `handleFrom` reads. -/
def Packet.examined : Packet → Packet
  | .index kind items => .index kind (items.take maxIndexEntries)
  | .fetch kind ids => .fetch kind (ids.take fetchIds)
  | .snippetItems items => .snippetItems (items.take maxItemsPerPacket)
  | .noteItems items => .noteItems (items.take maxItemsPerPacket)
  | .ack items => .ack (items.take maxItemsPerPacket)

theorem handleFrom_examined (s : Shelf) (packet : Packet) (peer : String) :
    handleFrom s packet.examined peer = handleFrom s packet peer := by
  cases packet with
  | index kind items => simp only [Packet.examined, handleFrom, List.take_take, min_self]
  | fetch kind ids => simp only [Packet.examined, handleFrom, List.take_take, min_self]
  | snippetItems items => simp only [Packet.examined, handleFrom, List.take_take, min_self]
  | noteItems items => simp only [Packet.examined, handleFrom, List.take_take, min_self]
  | ack items => simp only [Packet.examined, handleFrom, List.take_take, min_self]

/-- The bytes of a packet's entries, and its budget for them. -/
def Packet.withinBudget : Packet → Prop
  | .index _ items => batchBytes IndexEntry.jsonLength items ≤ indexBudget
  | .snippetItems items =>
    batchBytes Snippet.jsonLength items ≤ maxPacketBytes - packetOverhead
  | .noteItems items => batchBytes Note.jsonLength items ≤ maxPacketBytes - packetOverhead
  | .fetch _ _ => True
  | .ack _ => True

/-- A list split into packets: together they carry it in order, each is
within its budget, and each is read whole. -/
structure Whole {α : Type} (carried : Packet → List α) (values : List α) (packets : List Packet) :
    Prop where
  carries : packets.flatMap carried = values
  budget : ∀ p ∈ packets, p.withinBudget
  examined : ∀ p ∈ packets, p.examined = p

/-- The entries of a packet of each kind. -/
def Packet.snippetsIn : Packet → List Snippet
  | .snippetItems items => items
  | _ => []

def Packet.entriesIn : Packet → List IndexEntry
  | .index _ items => items
  | _ => []

def Packet.idsIn : Packet → List String
  | .fetch _ ids => ids
  | _ => []

def Packet.versionsIn : Packet → List (String × Int)
  | .ack items => items
  | _ => []

/-! ### The packets of each list -/

/-- A batch of items splits whole exactly when its stretches are read
whole. -/
theorem splitItems_whole_iff {α : Type} {length : α → Nat} {packet : List α → Packet}
    {carried : Packet → List α} (hcarried : ∀ l, carried (packet l) = l)
    (hbudget : ∀ l, (packet l).withinBudget ↔
      batchBytes length l ≤ maxPacketBytes - packetOverhead)
    (hexamined : ∀ l, (packet l).examined = packet l ↔ l.length ≤ maxItemsPerPacket)
    (values : List α) (hfits : ∀ value ∈ values, fitsPacket length value = true) :
    Whole carried values ((splitItems length values [] 0).map packet) ↔
      Stretches (maxPacketBytes - packetOverhead) maxItemsPerPacket
        (values.map (fun value => length value + 1)) := by
  have hiff : (∀ part ∈ splitItems length values [] 0, part.length ≤ maxItemsPerPacket) ↔ _ :=
    splitItems_length_iff maxItemsPerPacket values [] hfits (Nat.zero_le _)
  rw [List.nil_append] at hiff
  rw [← hiff]
  constructor
  · intro h part hpart
    exact (hexamined part).mp (h.examined _ (List.mem_map_of_mem hpart))
  · intro h
    refine ⟨?_, ?_, ?_⟩
    · have hflat := splitItems_flatten length values [] 0
      rw [List.nil_append, List.filter_eq_self.mpr hfits] at hflat
      rw [List.flatMap_map]
      simp only [hcarried]
      rw [List.flatMap_id']
      exact hflat
    · intro p hp
      obtain ⟨part, hpart, rfl⟩ := List.mem_map.mp hp
      exact (hbudget part).mpr (splitItems_bytes values [] (Nat.zero_le _) part hpart)
    · intro p hp
      obtain ⟨part, hpart, rfl⟩ := List.mem_map.mp hp
      exact (hexamined part).mpr (h part hpart)

theorem notePackets_whole_iff (values : List Note)
    (hfits : ∀ n ∈ values, fitsPacket Note.jsonLength n = true) :
    Whole Packet.notes values (notePackets values) ↔
      Stretches (maxPacketBytes - packetOverhead) maxItemsPerPacket
        (values.map (fun n => n.jsonLength + 1)) :=
  splitItems_whole_iff (fun _ => rfl) (fun _ => Iff.rfl)
    (fun l => by simp [Packet.examined]) values hfits

theorem snippetPackets_whole_iff (values : List Snippet)
    (hfits : ∀ n ∈ values, fitsPacket Snippet.jsonLength n = true) :
    Whole Packet.snippetsIn values (snippetPackets values) ↔
      Stretches (maxPacketBytes - packetOverhead) maxItemsPerPacket
        (values.map (fun n => n.jsonLength + 1)) :=
  splitItems_whole_iff (fun _ => rfl) (fun _ => Iff.rfl)
    (fun l => by simp [Packet.examined]) values hfits

/-- The JSON of an index entry, its id empty and its stamp one digit. -/
theorem indexEntry_jsonLength (e : IndexEntry) : 36 ≤ e.jsonLength := by
  have hstring (text : String) : 2 ≤ jsonStringLength text := Nat.le_add_right 2 _
  have hid : jsonStringLength "id" = 4 := by decide
  have hmodified : jsonStringLength "modified" = 10 := by decide
  have hdeleted : jsonStringLength "deleted" = 9 := by decide
  have hbool : 4 ≤ jsonBoolLength e.deleted := by
    unfold jsonBoolLength
    split <;> omega
  have he := hstring e.id
  unfold IndexEntry.jsonLength jsonGroupLength jsonFieldLength
  rw [hid, hmodified, hdeleted]
  simp only [List.sum_cons, List.sum_nil, List.length_cons, List.length_nil]
  omega

/-- An index packet within its budget has far fewer entries than are read. -/
theorem index_length_le {items : List IndexEntry}
    (h : batchBytes IndexEntry.jsonLength items ≤ indexBudget) :
    items.length ≤ maxIndexEntries := by
  have hcost : items.length * 37 ≤ batchBytes IndexEntry.jsonLength items := by
    induction items with
    | nil => exact Nat.zero_le _
    | cons e items ih =>
      have he := indexEntry_jsonLength e
      have hcons : batchBytes IndexEntry.jsonLength (e :: items)
          = e.jsonLength + 1 + batchBytes IndexEntry.jsonLength items := by
        simp [batchBytes]
      rw [hcons] at h ⊢
      have hrest := ih (by omega)
      rw [List.length_cons]
      omega
  have hbudget : indexBudget = 40960 := by decide
  have hmax : maxIndexEntries = 4000 := by decide
  omega

/-- An index splits whole exactly when each of its entries fits a packet. -/
theorem indexPackets_whole_iff (s : Shelf) (kind : Kind) :
    Whole Packet.entriesIn (indexEntries s kind) (indexPackets s kind) ↔
      ∀ e ∈ indexEntries s kind, e.jsonLength + 1 ≤ indexBudget := by
  rw [← splitIndex_bytes_iff]
  constructor
  · intro h part hpart
    exact h.budget _ (List.mem_map_of_mem hpart)
  · intro h
    refine ⟨?_, ?_, ?_⟩
    · have hflat := splitIndex_flatten IndexEntry.jsonLength (indexEntries s kind) [] 0
      rw [List.nil_append] at hflat
      unfold indexPackets
      rw [List.flatMap_map]
      show (splitIndex IndexEntry.jsonLength (indexEntries s kind) [] 0).flatMap (fun l => l) = _
      rw [List.flatMap_id']
      exact hflat
    · intro p hp
      obtain ⟨part, hpart, rfl⟩ := List.mem_map.mp hp
      exact h part hpart
    · intro p hp
      obtain ⟨part, hpart, rfl⟩ := List.mem_map.mp hp
      have hlength := index_length_le (h part hpart)
      simp only [Packet.examined, Packet.index.injEq, true_and]
      exact List.take_of_length_le hlength

/-- Ids to fetch, and versions to acknowledge, go in packets of 100. -/
theorem chunks_whole {α : Type} {packet : List α → Packet} {carried : Packet → List α}
    (hcarried : ∀ l, carried (packet l) = l) (hbudget : ∀ l, (packet l).withinBudget)
    (hexamined : ∀ l : List α, l.length ≤ fetchIds → (packet l).examined = packet l)
    (values : List α) : Whole carried values ((chunksOf fetchIds values).map packet) := by
  refine ⟨?_, ?_, ?_⟩
  · rw [List.flatMap_map]
    simp only [hcarried]
    rw [List.flatMap_id', chunksOf_flatten]
  · intro p hp
    obtain ⟨chunk, -, rfl⟩ := List.mem_map.mp hp
    exact hbudget chunk
  · intro p hp
    obtain ⟨chunk, hchunk, rfl⟩ := List.mem_map.mp hp
    exact hexamined chunk (chunksOf_length (by decide) values chunk hchunk)

theorem fetchPackets_whole (kind : Kind) (ids : List String) :
    Whole Packet.idsIn ids ((chunksOf fetchIds ids).map (Packet.fetch kind)) :=
  @chunks_whole String (Packet.fetch kind) Packet.idsIn (fun _ => rfl) (fun _ => trivial)
    (fun l hl => by simp only [Packet.examined, List.take_of_length_le hl]) ids

theorem ackPackets_whole (versions : List (String × Int)) :
    Whole Packet.versionsIn versions ((chunksOf fetchIds versions).map Packet.ack) := by
  have hmax : fetchIds ≤ maxItemsPerPacket := by decide
  exact @chunks_whole (String × Int) Packet.ack Packet.versionsIn (fun _ => rfl) (fun _ => trivial)
    (fun l hl => by simp only [Packet.examined, List.take_of_length_le (le_trans hl hmax)]) versions

/-! ### What answers a packet -/

theorem takeNote_sendBack (peer : String) (st : ItemsState) (n : Note) :
    (takeNote peer st n).sendBack.length ≤ st.sendBack.length + 1 := by
  unfold takeNote
  split
  · exact Nat.le_succ _
  · split
    · exact Nat.le_succ _
    · split <;> simp

theorem takeSnippet_sendBack (st : ItemsState) (n : Snippet) :
    (takeSnippet st n).sendBack.length ≤ st.sendBack.length + 1 := by
  unfold takeSnippet
  split
  · exact Nat.le_succ _
  · split
    · exact Nat.le_succ _
    · simp only
      split
      · exact Nat.le_succ _
      · split <;> simp

/-- At most one answer for each item read. -/
theorem foldl_sendBack {α : Type} {take : ItemsState → α → ItemsState}
    (htake : ∀ st x, (take st x).sendBack.length ≤ st.sendBack.length + 1) (items : List α)
    (st : ItemsState) :
    (items.foldl take st).sendBack.length ≤ st.sendBack.length + items.length := by
  induction items generalizing st with
  | nil => exact le_rfl
  | cons x items ih =>
    have hrest := ih (take st x)
    have hone := htake st x
    rw [List.foldl_cons, List.length_cons]
    omega

/-- The items of at most 200 ids are read whole. -/
theorem itemsPackets_examined (s : Shelf) (kind : Kind) {ids : List String}
    (hids : ids.length ≤ maxItemsPerPacket) : ∀ p ∈ itemsPackets s kind ids, p.examined = p := by
  have hpart {α : Type} (get : String → Option α) (length : α → Nat) (part : List α)
      (hmem : part ∈ splitItems length (ids.filterMap get) [] 0) :
      part.length ≤ maxItemsPerPacket := by
    have hle := splitItems_length_le (ids.filterMap get) [] 0 part hmem
    have hfilter := List.length_filterMap_le get ids
    simp only [List.length_nil] at hle
    omega
  intro p hp
  cases kind with
  | snippets =>
    obtain ⟨part, hmem, rfl⟩ := List.mem_map.mp hp
    simp only [Packet.examined, List.take_of_length_le (hpart _ _ part hmem)]
  | notes =>
    obtain ⟨part, hmem, rfl⟩ := List.mem_map.mp hp
    simp only [Packet.examined, List.take_of_length_le (hpart _ _ part hmem)]

/-- What answers a packet is read whole: it answers no more entries than
were read. -/
theorem handleFrom_answers_examined (s : Shelf) (packet : Packet) (peer : String) :
    ∀ answer ∈ (handleFrom s packet peer).2.1, answer.examined = answer := by
  have hanswer (kind : Kind) (st : ItemsState) (hback : st.sendBack.length ≤ maxItemsPerPacket) :
      ∀ answer ∈ (answerItems kind peer st).2.1, answer.examined = answer := by
    intro answer hmem
    cases List.mem_append.mp hmem with
    | inl hitems => exact itemsPackets_examined _ kind hback answer hitems
    | inr hacks => exact (ackPackets_whole st.held).examined answer hacks
  have hread {α : Type} (l : List α) : (l.take maxItemsPerPacket).length ≤ maxItemsPerPacket :=
    List.length_take_le _ l
  cases packet with
  | index kind items => exact (fetchPackets_whole kind _).examined
  | fetch kind ids =>
    refine itemsPackets_examined _ kind ?_
    have hlength := List.length_take_le fetchIds ids
    have hmax : fetchIds ≤ maxItemsPerPacket := by decide
    omega
  | snippetItems items =>
    refine hanswer .snippets _ ?_
    have hback := foldl_sendBack takeSnippet_sendBack (items.take maxItemsPerPacket) { shelf := s }
    have hlength := hread items
    simp only [List.length_nil] at hback
    omega
  | noteItems items =>
    refine hanswer .notes _ ?_
    have hback := foldl_sendBack (takeNote_sendBack peer) (items.take maxItemsPerPacket)
      { shelf := s }
    have hlength := hread items
    simp only [List.length_nil] at hback
    omega
  | ack items => exact fun answer hmem => absurd hmem List.not_mem_nil

/-- A shelf has one of two notes that are asked for, and the other one as it is deleted. -/
theorem handleFrom_answers_examined_fetch :
    let milk : Note := ⟨"a", "", "milk", false, 1, 1, 0, [], false⟩
    let bread : Note := ⟨"b", "", "", false, 1, 2, 1, [1], true⟩
    (Packet.noteItems [milk, bread]).examined = .noteItems [milk, bread] := by
  intro milk bread
  let notes : KeyMap Note := ((∅ : KeyMap Note).insert "a" milk).insert "b" bread
  exact handleFrom_answers_examined { notes } (.fetch .notes ["a", "c", "b"]) "phone" _
    (by decide +kernel)

/-! ### All the packets a shelf sends -/

/-- Notes, snippets and an index go over whole exactly when no stretch of
the notes or of the snippets is longer than what is read of a packet, and
every index entry fits one. Ids to fetch and acknowledgements always do. -/
theorem packets_whole_iff (notes : List Note) (snippets : List Snippet) (s : Shelf)
    (hnotes : ∀ n ∈ notes, fitsPacket Note.jsonLength n = true)
    (hsnippets : ∀ n ∈ snippets, fitsPacket Snippet.jsonLength n = true) :
    (Whole Packet.notes notes (notePackets notes) ∧
        Whole Packet.snippetsIn snippets (snippetPackets snippets) ∧
        (∀ kind, Whole Packet.entriesIn (indexEntries s kind) (indexPackets s kind)) ∧
        (∀ kind ids, Whole Packet.idsIn ids ((chunksOf fetchIds ids).map (Packet.fetch kind))) ∧
        ∀ versions, Whole Packet.versionsIn versions
          ((chunksOf fetchIds versions).map Packet.ack)) ↔
      Stretches (maxPacketBytes - packetOverhead) maxItemsPerPacket
          (notes.map (fun n => n.jsonLength + 1)) ∧
        Stretches (maxPacketBytes - packetOverhead) maxItemsPerPacket
          (snippets.map (fun n => n.jsonLength + 1)) ∧
        ∀ kind, ∀ e ∈ indexEntries s kind, e.jsonLength + 1 ≤ indexBudget := by
  rw [notePackets_whole_iff notes hnotes, snippetPackets_whole_iff snippets hsnippets]
  constructor
  · intro h
    obtain ⟨hn, hs, hindex, -, -⟩ := h
    exact ⟨hn, hs, fun kind => (indexPackets_whole_iff s kind).mp (hindex kind)⟩
  · intro h
    obtain ⟨hn, hs, hindex⟩ := h
    exact ⟨hn, hs, fun kind => (indexPackets_whole_iff s kind).mpr (hindex kind),
      fetchPackets_whole, ackPackets_whole⟩

/-- Two plain notes and no snippets, from an empty shelf. -/
theorem packets_whole_iff_plain :
    Whole Packet.notes [plainNote "0", plainDeletion "1"]
      (notePackets [plainNote "0", plainDeletion "1"]) :=
  ((packets_whole_iff [plainNote "0", plainDeletion "1"] [] {} (by decide) (by decide)).mpr
    ⟨.last _ (by decide) (by decide), .last _ (by decide) (by decide),
      fun kind e he => by cases kind <;> simp [indexEntries] at he⟩).1

/-- The deletion of note 0, 200 times over, and then that of note 1. -/
def deletions : List Note :=
  List.replicate maxItemsPerPacket (plainDeletion "0") ++ [plainDeletion "1"]

theorem deletions_one : notePackets deletions = [.noteItems deletions] := by
  decide +kernel

/-- The deletion that comes last stands past what is read. -/
theorem deletions_read : deletions.take maxItemsPerPacket
    = List.replicate maxItemsPerPacket (plainDeletion "0") := by
  unfold deletions
  rw [List.take_append_of_le_length (by rw [List.length_replicate])]
  rw [List.take_of_length_le (by rw [List.length_replicate])]

/-- 201 deletions fit one packet, and of its entries the receiver reads
200: note 1 is not deleted there. -/
theorem deletions_cut_off :
    (∀ n ∈ deletions, fitsPacket Note.jsonLength n = true) ∧
      ¬Whole Packet.notes deletions (notePackets deletions) ∧
      (handleAll { notes := (∅ : KeyMap Note).insert "1" (plainNote "1") } (notePackets deletions)
        "phone").1.notes["1"]? = some (plainNote "1") := by
  refine ⟨?_, ?_, ?_⟩
  · intro n hn
    cases List.mem_append.mp hn with
    | inl hfirst =>
      rw [List.eq_of_mem_replicate hfirst]
      decide
    | inr hlast =>
      rw [List.mem_singleton.mp hlast]
      decide
  · intro h
    rw [deletions_one] at h
    have hread := Packet.noteItems.inj (h.examined _ (List.mem_singleton_self _))
    have hlength := congrArg List.length hread
    rw [deletions_read] at hlength
    simp [deletions] at hlength
  · decide +kernel

end DeskLink.Notes
