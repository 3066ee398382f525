import DeskLink.Folders.Packets
import DeskLink.Lib.Counted
import DeskLink.Proofs.Notes.Deletion

/-!
# `DeskLink.Proofs.Folders.Packets`: a manifest arrives as it was sent

`packParts_flatten` and `packParts_fits` are the packing, and `live_first` the order in which
entries go out. What is sent is a beginning of that order (`sent_upTo`), so removals are left
out before anything else is. `Filled` says that the first parts of a send are there, and
`receive_parts` is the rest of the send.

* `manifests_arrive`: of any sends, each of which may break off, the whole ones come out, and
  what comes out is what was sent.
* `packets_fit`: every packet keeps to its bounds.
-/

set_option autoImplicit false

namespace DeskLink.Folders

open Lib (byteLen utf8ByteSize_eq)
open Notes (jsonStringLength jsonIntLength jsonGroupLength jsonFieldLength jsonStringLength_le
  jsonIntLength_le)
variable {manifest : Manifest} {n : Nat} {entry : Entry} {path : String}

/-! ### Packing -/

theorem packParts_nil (current : List (String × Entry)) (size : Nat) :
    packParts current size [] = [current] := rfl

theorem packParts_cons (current : List (String × Entry)) (size : Nat) (item : String × Entry)
    (items : List (String × Entry)) :
    packParts current size (item :: items) =
      if maxPacketBytes - 512 < size + (wireLength item + 1) then
        current :: packParts [item] (wireLength item + 1) items
      else packParts (current ++ [item]) (size + (wireLength item + 1)) items := rfl

theorem packParts_flatten (current : List (String × Entry)) (size : Nat)
    (items : List (String × Entry)) :
    (packParts current size items).flatten = current ++ items := by
  induction items generalizing current size with
  | nil => rw [packParts_nil, List.flatten_singleton, List.append_nil]
  | cons item items ih =>
    rw [packParts_cons]
    split
    · rw [List.flatten_cons, ih, List.singleton_append]
    · rw [ih, List.append_assoc, List.singleton_append]

/-- The part so far is the beginning of the first one. -/
theorem packParts_head (current : List (String × Entry)) (size : Nat)
    (items : List (String × Entry)) :
    ∃ more rest, packParts current size items = (current ++ more) :: rest := by
  induction items generalizing current size with
  | nil => exact ⟨[], [], by rw [packParts_nil, List.append_nil]⟩
  | cons item items ih =>
    rw [packParts_cons]
    split
    · exact ⟨[], _, by rw [List.append_nil]⟩
    · obtain ⟨more, rest, heq⟩ := ih (current ++ [item]) (size + (wireLength item + 1))
      exact ⟨item :: more, rest, by rw [heq, List.append_assoc, List.singleton_append]⟩

/-- What fills some parts by itself is in as many parts of what begins with
it. -/
theorem packParts_prefix (current : List (String × Entry)) (size : Nat)
    (first rest : List (String × Entry)) :
    current ++ first <+: ((packParts current size (first ++ rest)).take
      (packParts current size first).length).flatten := by
  induction first generalizing current size with
  | nil =>
    obtain ⟨more, later, heq⟩ := packParts_head current size rest
    rw [List.nil_append, heq, packParts_nil, List.append_nil, List.length_singleton,
      List.take_succ_cons, List.take_zero, List.flatten_singleton]
    exact List.prefix_append current more
  | cons item first ih =>
    rw [List.cons_append, packParts_cons, packParts_cons]
    split
    · rw [List.length_cons, List.take_succ_cons, List.flatten_cons]
      exact (List.prefix_append_right_inj current).mpr (ih [item] (wireLength item + 1))
    · have hrest := ih (current ++ [item]) (size + (wireLength item + 1))
      rw [List.append_assoc, List.singleton_append] at hrest
      exact hrest

/-- The bytes of a part's entries, each with its comma. -/
def partBytes (part : List (String × Entry)) : Nat :=
  (part.map (fun item => wireLength item + 1)).sum

theorem packParts_fits {items : List (String × Entry)}
    (hitems : ∀ item ∈ items, wireLength item + 1 ≤ maxPacketBytes - 512)
    (current : List (String × Entry)) (hcurrent : partBytes current ≤ maxPacketBytes - 512) :
    ∀ part ∈ packParts current (partBytes current) items,
      partBytes part ≤ maxPacketBytes - 512 := by
  induction items generalizing current with
  | nil =>
    intro part hpart
    rw [packParts_nil, List.mem_singleton] at hpart
    rw [hpart]
    exact hcurrent
  | cons item items ih =>
    obtain ⟨hitem, hrest⟩ := List.forall_mem_cons.mp hitems
    have hone : partBytes [item] = wireLength item + 1 := by simp [partBytes]
    have hmore : partBytes (current ++ [item]) = partBytes current + (wireLength item + 1) := by
      simp [partBytes]
    intro part hpart
    rw [packParts_cons] at hpart
    split at hpart
    · obtain rfl | hlater := List.mem_cons.mp hpart
      · exact hcurrent
      · rw [← hone] at hlater
        exact ih hrest [item] (by omega) part hlater
    · rw [← hmore] at hpart
      exact ih hrest (current ++ [item]) (by omega) part hpart

/-! ### The order -/

theorem wireOrder_iff (a b : String × Entry) : wireOrder a b = true ↔
    (a.2.deleted = false ∧ b.2.deleted = true) ∨
      (a.2.deleted = b.2.deleted ∧ b.2.mtime ≤ a.2.mtime) := by
  simp [wireOrder]

theorem wireOrder_trans (a b c : String × Entry) (hab : wireOrder a b = true)
    (hbc : wireOrder b c = true) : wireOrder a c = true := by
  rw [wireOrder_iff] at *
  obtain ⟨ha, hb⟩ | ⟨heq, hle⟩ := hab
  · obtain ⟨hb', -⟩ | ⟨heq', -⟩ := hbc
    · rw [hb] at hb'
      cases hb'
    · exact .inl ⟨ha, heq' ▸ hb⟩
  · obtain ⟨hb, hc⟩ | ⟨heq', hle'⟩ := hbc
    · exact .inl ⟨heq.trans hb, hc⟩
    · exact .inr ⟨heq.trans heq', hle'.trans hle⟩

theorem wireOrder_total (a b : String × Entry) : (wireOrder a b || wireOrder b a) = true := by
  rw [Bool.or_eq_true, wireOrder_iff, wireOrder_iff]
  have hle := Int.le_total a.2.mtime b.2.mtime
  cases ha : a.2.deleted <;> cases hb : b.2.deleted <;> simp <;> omega

theorem ordered_sorted (manifest : Manifest) :
    (ordered manifest).Pairwise (fun a b => wireOrder a b = true) :=
  List.pairwise_mergeSort wireOrder_trans wireOrder_total _

theorem mem_ordered (manifest : Manifest) (item : String × Entry) :
    item ∈ ordered manifest ↔ manifest[item.1]? = some item.2 := by
  rw [ordered, (List.mergeSort_perm _ _).mem_iff, mem_toList_iff]

/-- The entries that are there, in the order they go out. -/
def liveEntries (manifest : Manifest) : List (String × Entry) :=
  (ordered manifest).filter (fun item => !item.2.deleted)

/-- Nothing that is there goes out after a removal. -/
theorem live_first {l : List (String × Entry)}
    (hsorted : l.Pairwise (fun a b => wireOrder a b = true)) :
    l = l.filter (fun item => !item.2.deleted) ++ l.filter (fun item => item.2.deleted) := by
  induction l with
  | nil => rfl
  | cons item l ih =>
    obtain ⟨hfirst, hrest⟩ := List.pairwise_cons.mp hsorted
    cases hdeleted : item.2.deleted with
    | false =>
      rw [List.filter_cons_of_pos (by simp [hdeleted]), List.filter_cons_of_neg (by simp [hdeleted]),
        List.cons_append, ← ih hrest]
    | true =>
      -- What follows a removal is removals.
      have hnone : l.filter (fun item => !item.2.deleted) = [] := by
        rw [List.filter_eq_nil_iff]
        intro other hother
        have hordered := (wireOrder_iff item other).mp (hfirst other hother)
        rw [hdeleted] at hordered
        simp only [Bool.true_eq_false, false_and, false_or] at hordered
        simp [← hordered.1]
      rw [List.filter_cons_of_neg (by simp [hdeleted]), List.filter_cons_of_pos (by simp [hdeleted]),
        hnone, List.nil_append]
      rw [hnone, List.nil_append] at ih
      rw [← ih hrest]

/-! ### What is sent -/

theorem sent_upTo (manifest : Manifest) :
    (sentParts manifest).flatten <+: (ordered manifest).take maxFiles := by
  have hprefix := (List.take_prefix maxParts
    (packParts [] 0 ((ordered manifest).take maxFiles))).flatten
  rw [packParts_flatten, List.nil_append] at hprefix
  exact hprefix

theorem length_sent (manifest : Manifest) : (sentParts manifest).flatten.length ≤ maxFiles :=
  (sent_upTo manifest).length_le.trans (List.length_take_le _ _)

theorem mem_sent {item : String × Entry} (h : item ∈ (sentParts manifest).flatten) :
    manifest[item.1]? = some item.2 :=
  (mem_ordered manifest item).mp
    (List.mem_of_mem_take ((sent_upTo manifest).subset h))

theorem sentParts_length (manifest : Manifest) :
    1 ≤ (sentParts manifest).length ∧ (sentParts manifest).length ≤ maxParts := by
  obtain ⟨more, rest, heq⟩ := packParts_head [] 0 ((ordered manifest).take maxFiles)
  rw [sentParts, heq, List.length_take, List.length_cons]
  have hmax : maxParts = 256 := rfl
  omega

/-- Where the entries that are there fit, they are sent. -/
theorem live_sent (hfiles : (liveEntries manifest).length ≤ maxFiles)
    (hparts : (packParts [] 0 (liveEntries manifest)).length ≤ maxParts) :
    liveEntries manifest <+: (sentParts manifest).flatten := by
  have hsplit := live_first (ordered_sorted manifest)
  have htake : (ordered manifest).take maxFiles = liveEntries manifest
      ++ ((ordered manifest).filter (fun item => item.2.deleted)).take
        (maxFiles - (liveEntries manifest).length) := by
    conv_lhs => rw [hsplit]
    rw [← liveEntries, List.take_append, List.take_of_length_le hfiles]
  have hprefix := packParts_prefix [] 0 (liveEntries manifest)
    (((ordered manifest).filter (fun item => item.2.deleted)).take
      (maxFiles - (liveEntries manifest).length))
  rw [← htake, List.nil_append] at hprefix
  exact hprefix.trans (List.take_prefix_take_left hparts).flatten

/-- A removal that is left out is no newer than one that is sent. -/
theorem newest_sent {lost kept : String × Entry} (hlost : manifest[lost.1]? = some lost.2)
    (hdeleted : lost.2.deleted = true) (hout : lost ∉ (sentParts manifest).flatten)
    (hkept : kept ∈ (sentParts manifest).flatten) (hkeptDeleted : kept.2.deleted = true) :
    lost.2.mtime ≤ kept.2.mtime := by
  obtain ⟨left, hleft⟩ := (sent_upTo manifest).trans (List.take_prefix _ _)
  -- What is sent is a beginning of the sorted listing, and the newest removals come first.
  have hsorted := ordered_sorted manifest
  have hmem := (mem_ordered manifest lost).mpr hlost
  rw [← hleft] at hsorted hmem
  have hafter : lost ∈ left := (List.mem_append.mp hmem).resolve_left hout
  have horder := (wireOrder_iff kept lost).mp
    ((List.pairwise_append.mp hsorted).2.2 kept hkept lost hafter)
  rw [hkeptDeleted, hdeleted] at horder
  simpa using horder

/-! ### Bytes -/

theorem length_le_utf8ByteSize (s : String) : s.length ≤ s.utf8ByteSize := by
  have hlist (l : List Char) : l.length ≤ byteLen l := by
    induction l with
    | nil => exact Nat.zero_le _
    | cons c l ih =>
      have hc := Char.utf8Size_pos c
      rw [List.length_cons, Lib.byteLen_cons]
      omega
  rw [← String.length_toList, utf8ByteSize_eq]
  exact hlist s.toList

/-- A `u64` has at most 20 digits. -/
theorem jsonNatLength_le (h : n < 2 ^ 64) : jsonIntLength (n : Int) ≤ 20 := by
  have hdigits : (Nat.repr n).length ≤ 20 := Nat.repr_length n 20 (by omega) (by omega)
  exact hdigits

/-- An entry that fits a packet. -/
def Fits (item : String × Entry) : Prop := wireLength item + 1 ≤ maxPacketBytes - 512

/-- An entry as both sides make them: a valid path, a hash of 64 digits and
numbers that a file has. -/
theorem fits_of_plain (hpath : validateRelpath path = true) (hhash : entry.sha256.utf8ByteSize ≤ 64)
    (hsize : entry.size < 2 ^ 64) (hmtime : Notes.inI64 entry.mtime = true) :
    Fits (path, entry) := by
  have hvalid : path.utf8ByteSize ≤ 1024 := by
    simp only [validateRelpath, Bool.and_eq_true, decide_eq_true_eq] at hpath
    exact hpath.1.1.2
  have hpathLength := jsonStringLength_le path
  have hpathSize := length_le_utf8ByteSize path
  have hhashLength := jsonStringLength_le entry.sha256
  have hhashSize := length_le_utf8ByteSize entry.sha256
  have hmtimeLength := jsonIntLength_le hmtime
  have hsizeLength := jsonNatLength_le hsize
  have hdesk := jsonNatLength_le entry.vv.desk.toNat_lt
  have hphone := jsonNatLength_le entry.vv.phone.toNat_lt
  have hkeys : jsonStringLength "path" = 6 ∧ jsonStringLength "size" = 6 ∧
      jsonStringLength "mtime" = 7 ∧ jsonStringLength "sha256" = 8 ∧ jsonStringLength "vv" = 4 ∧
      jsonStringLength "desk" = 6 ∧ jsonStringLength "phone" = 7 ∧
      jsonStringLength "deleted" = 9 ∧ jsonStringLength "dir" = 5 := by decide
  have hdeleted := Notes.jsonBoolLength_le true
  have hmax : maxPacketBytes = 40960 := rfl
  unfold Fits wireLength
  simp only [jsonGroupLength, jsonFieldLength]
  split <;> split <;> simp <;> omega

/-! ### Receiving -/

/-- An entry as the receiver takes it, if it is safe to use. -/
def takenEntry (pair : Pair) (item : String × Entry) : Option (String × Entry) :=
  if sane pair item.1 item.2 then
    some (item.1, { item.2 with sha256 := asciiLowercase item.2.sha256 })
  else none

/-- The parts received so far, as one listing. -/
def contents (incoming : Incoming) : List (String × Entry) :=
  incoming.toList.flatMap (fun part => part.2)

/-- The first `k` parts are there, and nothing else. -/
def Filled (pair : Pair) (parts : List (List (String × Entry))) (k : Nat)
    (incoming : Incoming) : Prop :=
  ∀ n : Nat, incoming[n]? =
    if 1 ≤ n ∧ n ≤ k then some ((parts.getD (n - 1) []).filterMap (takenEntry pair)) else none

section
variable {pair : Pair} {parts : List (List (String × Entry))} {k : Nat} {incoming : Incoming}

theorem Filled.contents_eq (h : Filled pair parts k incoming) (hk : k ≤ parts.length) :
    contents incoming = (parts.take k).flatten.filterMap (takenEntry pair) := by
  have hparts : (List.range' 1 k).map (fun n => parts.getD (n - 1) []) = parts.take k := by
    refine List.ext_getElem (by simp [hk]) (fun i hi _ => ?_)
    rw [List.length_map, List.length_range'] at hi
    simp [List.getElem?_eq_getElem (show i < parts.length by omega)]
  unfold contents
  rw [toList_of_filled h, ← hparts, List.flatMap_map, ← List.flatMap_def, List.filterMap_flatMap]

theorem Filled.size_eq (h : Filled pair parts k incoming) : incoming.size = k := by
  rw [← Std.ExtTreeMap.length_toList, toList_of_filled h, List.length_map, List.length_range']

/-- Part `k + 1` comes: the manifest is whole, or one more part is there. -/
theorem onManifest_part (hfiles : parts.flatten.length ≤ maxFiles)
    (hparts : parts.length ≤ maxParts) (hk : k < parts.length)
    (hheld : (contents incoming).length ≤ maxFiles) (h : k = 0 ∨ Filled pair parts k incoming) :
    ∃ next, Filled pair parts (k + 1) next ∧
      onManifest pair incoming ⟨(k + 1 : Nat), parts.length, parts[k]⟩
        = if k + 1 = parts.length then
            (∅, some (Std.ExtTreeMap.ofList (parts.flatten.filterMap (takenEntry pair)) compare))
          else (next, none) := by
  -- The first part clears what a send that broke off has left.
  have hcleared : Filled pair parts k (if ((k + 1 : Nat) : Int) = 1 then ∅ else incoming) := by
    rcases h with rfl | h
    · intro n
      simp
      omega
    · split
      · obtain rfl : k = 0 := by omega
        intro n
        simp
        omega
      · exact h
  have hpart : parts[k].length ≤ maxFiles :=
    ((List.sublist_flatten_of_mem (List.getElem_mem hk)).length_le).trans hfiles
  -- The part is put behind the others.
  have hnext : Filled pair parts (k + 1)
      ((if ((k + 1 : Nat) : Int) = 1 then ∅ else incoming).insert (k + 1)
        (manifestEntries pair ⟨(k + 1 : Nat), parts.length, parts[k]⟩)) := by
    intro n
    rw [getElem?_idInsert, hcleared n]
    by_cases hn : k + 1 = n
    · subst hn
      have hin : 1 ≤ k + 1 ∧ k + 1 ≤ k + 1 := by omega
      have hget : parts.getD k [] = parts[k] := by simp [hk]
      rw [if_pos rfl, if_pos hin, Nat.add_sub_cancel, hget]
      simp only [manifestEntries, List.take_of_length_le hpart]
      rfl
    · have hiff : (1 ≤ n ∧ n ≤ k + 1) ↔ (1 ≤ n ∧ n ≤ k) := by omega
      simp only [if_neg hn, hiff]
  refine ⟨_, hnext, ?_⟩
  have hcontents := hnext.contents_eq (Nat.succ_le_of_lt hk)
  -- What is held is of one manifest, so it is never over the limit of two.
  have hroom : ¬maxFiles * 2 ≤ (incoming.toList.map (fun part => part.2.length)).sum := by
    have hlength : (contents incoming).length
        = (incoming.toList.map (fun part => part.2.length)).sum := List.length_flatMap
    have hmax : 0 < maxFiles := by decide
    omega
  have hrange : ¬(¬(1 ≤ (parts.length : Int) ∧ (parts.length : Int) ≤ (maxParts : Int)) ∨
      ¬(1 ≤ ((k + 1 : Nat) : Int) ∧ ((k + 1 : Nat) : Int) ≤ (parts.length : Int))) := by omega
  unfold onManifest
  simp only [Int.toNat_natCast]
  rw [if_neg hrange, if_neg hroom, hnext.size_eq]
  by_cases hlast : k + 1 = parts.length
  · have hlength : (parts.flatten.filterMap (takenEntry pair)).length ≤ maxFiles :=
      (List.length_filterMap_le ..).trans hfiles
    have hall : parts.take (k + 1) = parts := by rw [hlast, List.take_length]
    rw [hall] at hcontents
    unfold contents at hcontents
    rw [if_neg (by omega), if_pos hlast, hcontents, List.take_of_length_le hlength]
  · rw [if_pos (by omega), if_neg hlast]

theorem receive_append (pair : Pair) (incoming : Incoming) (first rest : List ManifestPacket) :
    receive pair incoming (first ++ rest) = ((receive pair (receive pair incoming first).1 rest).1,
      (receive pair incoming first).2 ++ (receive pair (receive pair incoming first).1 rest).2) := by
  induction first generalizing incoming with
  | nil => rfl
  | cons packet first ih => simp [receive, ih]

/-- The packets of a send, from part `k + 1`, as far as it gets. -/
theorem receive_parts (hfiles : parts.flatten.length ≤ maxFiles)
    (hparts : parts.length ≤ maxParts) (n : Nat) (hk : k ≤ parts.length)
    (hheld : (contents incoming).length ≤ maxFiles) (h : k = 0 ∨ Filled pair parts k incoming) :
    ∃ next, (contents next).length ≤ maxFiles ∧
      receive pair incoming (((parts.mapIdx (fun index entries =>
          (⟨(index + 1 : Nat), (parts.length : Nat), entries⟩ : ManifestPacket))).drop k).take n)
        = (next, if k < parts.length ∧ parts.length ≤ k + n then
            [Std.ExtTreeMap.ofList (parts.flatten.filterMap (takenEntry pair)) compare]
          else []) := by
  -- On how many packets come: either the next part is the last, or one more is there.
  induction n generalizing k incoming with
  | zero => exact ⟨incoming, hheld, by rw [List.take_zero, if_neg (by omega)]; rfl⟩
  | succ n ih =>
    by_cases hmore : k < parts.length
    · obtain ⟨next, hnext, heq⟩ := onManifest_part hfiles hparts hmore hheld h
      rw [List.drop_eq_getElem_cons (by simpa using hmore), List.take_succ_cons,
        List.getElem_mapIdx, receive, heq]
      by_cases hlast : k + 1 = parts.length
      · refine ⟨∅, Nat.zero_le _, ?_⟩
        rw [if_pos hlast, if_pos (by omega), List.drop_of_length_le (by simp [hlast]), List.take_nil]
        rfl
      · have hlength : (contents next).length ≤ maxFiles := by
          rw [hnext.contents_eq hmore]
          exact (List.length_filterMap_le ..).trans
            (((List.take_sublist _ _).flatten.length_le).trans hfiles)
        obtain ⟨last, hlight, hrest⟩ := ih (k := k + 1) hmore hlength (.inr hnext)
        refine ⟨last, hlight, ?_⟩
        rw [if_neg hlast]
        simp only [hrest, Option.toList_none, List.nil_append]
        congr 2
        exact propext (by omega)
    · refine ⟨incoming, hheld, ?_⟩
      rw [List.drop_of_length_le (by simp; omega), List.take_nil, if_neg (by omega)]
      rfl

end

/-! ### What arrives -/

/-- The manifest that comes out of the parts that are sent. -/
def arrived (pair : Pair) (manifest : Manifest) : Manifest :=
  Std.ExtTreeMap.ofList ((sentParts manifest).flatten.filterMap (takenEntry pair)) compare

theorem getElem?_arrived {pair : Pair} : (arrived pair manifest)[path]? = some entry ↔
      ∃ e, (path, e) ∈ (sentParts manifest).flatten ∧ sane pair path e = true ∧
        { e with sha256 := asciiLowercase e.sha256 } = entry := by
  have htaken (item taken : String × Entry) : takenEntry pair item = some taken ↔
      sane pair item.1 item.2 = true ∧
        (item.1, { item.2 with sha256 := asciiLowercase item.2.sha256 }) = taken := by
    simp [takenEntry]
  have hkeys : ((sentParts manifest).flatten.map Prod.fst).Nodup := by
    have hperm := (List.mergeSort_perm manifest.toList wireOrder).map Prod.fst
    exact (((sent_upTo manifest).sublist.trans (List.take_sublist _ _)).map Prod.fst).nodup
      (hperm.nodup_iff.mpr (nodup_keys_toList manifest))
  have hnodup : (((sentParts manifest).flatten.filterMap (takenEntry pair)).map Prod.fst).Nodup := by
    rw [List.Nodup, List.pairwise_map] at hkeys ⊢
    rw [List.pairwise_filterMap]
    refine hkeys.imp (fun hne taken h taken' h' => ?_)
    rw [← ((htaken _ _).mp h).2, ← ((htaken _ _).mp h').2]
    exact hne
  rw [arrived, getElem?_ofList hnodup, List.mem_filterMap]
  constructor
  · rintro ⟨item, hitem, h⟩
    obtain ⟨hsane, heq⟩ := (htaken _ _).mp h
    cases heq
    exact ⟨item.2, hitem, hsane, rfl⟩
  · rintro ⟨e, hitem, hsane, rfl⟩
    exact ⟨(path, e), hitem, (htaken _ _).mpr ⟨hsane, rfl⟩⟩

/-- What the receiver has when it has the whole of a manifest. A bucket still leaves out what
clashes in case (`left_out_of_remote`) before it plans against it. -/
structure Arrives (pair : Pair) (manifest : Manifest) : Prop where
  /-- Every entry is one of the sender's, and safe to use. -/
  entries : ∀ (path : String) (entry : Entry), (arrived pair manifest)[path]? = some entry →
    ∃ e, manifest[path]? = some e ∧ sane pair path e = true ∧
      { e with sha256 := asciiLowercase e.sha256 } = entry
  /-- Where the entries that are there fit, all of them arrive. -/
  live : (liveEntries manifest).length ≤ maxFiles →
    (packParts [] 0 (liveEntries manifest)).length ≤ maxParts →
      ∀ (path : String) (e : Entry), manifest[path]? = some e → e.deleted = false →
        sane pair path e = true →
          (arrived pair manifest)[path]? = some { e with sha256 := asciiLowercase e.sha256 }
  /-- The removals that arrive are the newest. -/
  removals : ∀ (path : String) (e : Entry) (kept : String) (entry : Entry),
    manifest[path]? = some e → e.deleted = true → sane pair path e = true →
      (arrived pair manifest)[path]? = none → (arrived pair manifest)[kept]? = some entry →
        entry.deleted = true → e.mtime ≤ entry.mtime

theorem arrives (pair : Pair) (manifest : Manifest) : Arrives pair manifest where
  entries := by
    intro path entry h
    obtain ⟨e, hmem, hsane, heq⟩ := getElem?_arrived.mp h
    exact ⟨e, mem_sent hmem, hsane, heq⟩
  live := by
    intro hfiles hparts path e hget hlive hsane
    refine getElem?_arrived.mpr ⟨e, (live_sent hfiles hparts).subset ?_, hsane, rfl⟩
    exact List.mem_filter.mpr ⟨(mem_ordered manifest (path, e)).mpr hget, by simp [hlive]⟩
  removals := by
    intro path e kept entry hget hdeleted hsane hnone hkept hkeptDeleted
    obtain ⟨k, hmem, -, rfl⟩ := getElem?_arrived.mp hkept
    have hout : (path, e) ∉ (sentParts manifest).flatten := by
      intro hin
      rw [getElem?_arrived.mpr ⟨e, hin, hsane, rfl⟩] at hnone
      cases hnone
    exact newest_sent hget hdeleted hout hmem hkeptDeleted

/-- Of any sends one after another, each of which may break off anywhere, just those that are
whole come out, in their order; and what comes out is what was sent. -/
theorem manifests_arrive (pair : Pair) (sends : List (Manifest × Nat)) :
    (receive pair ∅ (sends.flatMap (fun send => (manifestPackets send.1).take send.2))).2
        = (sends.filter (fun send => (manifestPackets send.1).length ≤ send.2)).map
          (fun send => arrived pair send.1) ∧
      ∀ manifest, Arrives pair manifest := by
  have hsends : ∀ (sends : List (Manifest × Nat)) (incoming : Incoming),
      (contents incoming).length ≤ maxFiles →
      (receive pair incoming (sends.flatMap (fun send => (manifestPackets send.1).take send.2))).2
        = (sends.filter (fun send => (manifestPackets send.1).length ≤ send.2)).map
          (fun send => arrived pair send.1) := by
    intro sends
    induction sends with
    | nil => exact fun _ _ => rfl
    | cons send sends ih =>
      intro incoming hheld
      obtain ⟨hone, hmax⟩ := sentParts_length send.1
      obtain ⟨next, hnext, heq⟩ := @receive_parts pair _ 0 _ (length_sent send.1) hmax send.2
        (Nat.zero_le _) hheld (.inl rfl)
      have hlength : (manifestPackets send.1).length = (sentParts send.1).length :=
        List.length_mapIdx
      rw [List.drop_zero] at heq
      rw [List.flatMap_cons, receive_append, manifestPackets, heq, ih next hnext]
      by_cases hwhole : (sentParts send.1).length ≤ send.2
      · rw [if_pos (by omega), List.filter_cons_of_pos (by simpa [hlength] using hwhole)]
        rfl
      · rw [if_neg (by omega), List.filter_cons_of_neg (by simpa [hlength] using hwhole)]
        rfl
  exact ⟨hsends sends ∅ (Nat.zero_le _), arrives pair⟩

/-- Entries as both sides make them. -/
def Plain (manifest : Manifest) : Prop :=
  ∀ (path : String) (entry : Entry), manifest[path]? = some entry → validateRelpath path = true ∧
    entry.sha256.utf8ByteSize ≤ 64 ∧ entry.size < 2 ^ 64 ∧ Notes.inI64 entry.mtime = true

/-- Every part keeps to its bound. -/
theorem parts_fit (hplain : Plain manifest) :
    ∀ part ∈ packParts [] 0 ((ordered manifest).take maxFiles),
      partBytes part ≤ maxPacketBytes - 512 := by
  refine packParts_fits (fun item hitem => ?_) [] (Nat.zero_le _)
  obtain ⟨hpath, hhash, hsize, hmtime⟩ :=
    hplain item.1 item.2 ((mem_ordered manifest item).mp (List.mem_of_mem_take hitem))
  exact fits_of_plain hpath hhash hsize hmtime

/-- Every packet of a manifest keeps to the bounds on packets and on their number. -/
theorem packets_fit {id : String} {now : Int} {manifest : Manifest} (hid : validPairId id = true)
    (hnow : Notes.inI64 now = true) (hplain : Plain manifest) :
    ∀ packet ∈ manifestPackets manifest, packet.length id now ≤ maxPacketBytes ∧
      1 ≤ packet.part ∧ packet.part ≤ packet.parts ∧ packet.parts ≤ maxParts := by
  intro packet hpacket
  obtain ⟨index, hindex, rfl⟩ := List.mem_mapIdx.mp hpacket
  have hcount := (sentParts_length manifest).2
  have hmax : maxParts = 256 ∧ maxPacketBytes = 40960 := ⟨rfl, rfl⟩
  have hpart : partBytes (sentParts manifest)[index] ≤ maxPacketBytes - 512 :=
    parts_fit hplain _ (List.mem_of_mem_take (List.getElem_mem hindex))
  have hentries : jsonGroupLength ((sentParts manifest)[index].map wireLength)
      ≤ 2 + partBytes (sentParts manifest)[index] := by
    have hsum : ∀ l : List (String × Entry), partBytes l = (l.map wireLength).sum + l.length := by
      intro l
      rw [partBytes, List.sum_map_add]
      simp
    rw [jsonGroupLength, List.length_map, hsum]
    omega
  have hdigits {n : Nat} (hn : n ≤ 256) : jsonIntLength (n : Int) ≤ 3 :=
    Nat.repr_length n 3 (by omega) (by omega)
  have hpartDigits := hdigits (n := index + 1) (by omega)
  rw [Nat.cast_succ] at hpartDigits
  have hpartsDigits := hdigits (n := (sentParts manifest).length) (by omega)
  have hnowDigits := jsonIntLength_le hnow
  have hidLength : jsonStringLength id ≤ 386 := by
    have hle := jsonStringLength_le id
    have hsize := length_le_utf8ByteSize id
    simp only [validPairId, Bool.and_eq_true, decide_eq_true_eq] at hid
    omega
  have hkeys : jsonStringLength "id" = 4 ∧ jsonStringLength "type" = 6 ∧
      jsonStringLength "desklink.folders" = 18 ∧ jsonStringLength "body" = 6 ∧
      jsonStringLength "op" = 4 ∧ jsonStringLength "manifest" = 10 ∧ jsonStringLength "part" = 6 ∧
      jsonStringLength "parts" = 7 ∧ jsonStringLength "entries" = 9 := by decide
  refine ⟨?_, by dsimp only; omega, by dsimp only; omega, by dsimp only; omega⟩
  unfold ManifestPacket.length
  generalize jsonGroupLength ((sentParts manifest)[index].map wireLength) = entries at hentries ⊢
  simp only [jsonGroupLength, jsonFieldLength]
  simp
  omega

/-- Every entry takes some bytes. -/
theorem le_wireLength (item : String × Entry) : 50 ≤ wireLength item := by
  obtain ⟨path, entry⟩ := item
  have hkeys : jsonStringLength "path" = 6 ∧ jsonStringLength "size" = 6 ∧
      jsonStringLength "mtime" = 7 ∧ jsonStringLength "sha256" = 8 ∧ jsonStringLength "vv" = 4 ∧
      jsonStringLength "desk" = 6 ∧ jsonStringLength "phone" = 7 := by decide
  simp only [wireLength, jsonGroupLength, jsonFieldLength, List.sum_append, List.sum_cons]
  omega

/-- A name of one character. -/
theorem validateRelpath_singleton {c : Char} (h : c ≠ '/' ∧ c ≠ '\\' ∧ c ≠ '\x00' ∧ c ≠ '.') :
    validateRelpath (String.singleton c) = true := by
  obtain ⟨hslash, hback, hnul, hdot⟩ := h
  have hsize := c.utf8Size_le_four
  have hother {s : String} (hs : [c] ≠ s.toList) : String.singleton c ≠ s := by
    rintro rfl
    exact hs (String.toList_singleton c).symm
  have hname : Transfer.validateFilename (String.singleton c) = .ok () := by
    unfold Transfer.validateFilename
    rw [if_neg]
    simp [hother (s := "") (by simp), hother (s := ".") (by simpa using hdot),
      hother (s := "..") (by simp), hslash, hback, hnul]
    omega
  simp [validateRelpath, Lib.segments, hslash, hother (s := "") (by simp), hname]
  omega

/-- The entries of eight hundred files, each with a name of one character. -/
def manyEntries : List (String × Entry) :=
  (List.range 800).map (fun n => (String.singleton (Char.ofNat (0x4e00 + n)),
    { size := 3, mtime := 7, sha256 := "", vv := {} }))

theorem toNat_name (hn : n < 800) : (Char.ofNat (0x4e00 + n)).toNat = 0x4e00 + n := by
  have hvalid : (0x4e00 + n).isValidChar := .inl (by omega)
  unfold Char.ofNat
  rw [dif_pos hvalid]
  rfl

theorem nodup_manyEntries : (manyEntries.map Prod.fst).Nodup := by
  rw [manyEntries, List.map_map]
  refine List.nodup_range.map_on (fun m hm n hn h => ?_)
  have hlist := congrArg String.toList h
  rw [Function.comp, Function.comp, String.toList_singleton, String.toList_singleton,
    List.singleton_inj] at hlist
  have hnat := congrArg Char.toNat hlist
  rw [toNat_name (List.mem_range.mp hm), toNat_name (List.mem_range.mp hn)] at hnat
  omega

def manyFiles : Manifest := Std.ExtTreeMap.ofList manyEntries compare

/-- They go in more packets than one, and each of these keeps to its bounds. -/
theorem packets_fit_many :
    1 < (manifestPackets manyFiles).length ∧
      ∀ packet ∈ manifestPackets manyFiles, packet.length "docs" 0 ≤ maxPacketBytes ∧
        1 ≤ packet.part ∧ packet.part ≤ packet.parts ∧ packet.parts ≤ maxParts := by
  have hplain : Plain manyFiles := by
    intro path entry h
    obtain ⟨n, hn, heq⟩ := List.mem_map.mp ((getElem?_ofList nodup_manyEntries _ _).mp h)
    cases heq
    have hnat := toNat_name (List.mem_range.mp hn)
    refine ⟨validateRelpath_singleton ?_, by decide, by decide, by decide⟩
    -- The characters that a name may not have are small.
    have hne {d : Char} (hd : d.toNat < 0x4e00) : Char.ofNat (0x4e00 + n) ≠ d := by
      rintro rfl
      omega
    exact ⟨hne (by decide), hne (by decide), hne (by decide), hne (by decide)⟩
  refine ⟨?_, packets_fit (by decide) (by decide) hplain⟩
  by_contra hone
  -- One part would have all of the files.
  rw [manifestPackets, List.length_mapIdx, sentParts, List.length_take] at hone
  obtain ⟨more, rest, heq⟩ := packParts_head [] 0 ((ordered manyFiles).take maxFiles)
  have hrest : rest = [] := by
    rw [heq, List.length_cons] at hone
    have hmax : maxParts = 256 := rfl
    exact List.eq_nil_of_length_eq_zero (by omega)
  have hflatten := packParts_flatten [] 0 ((ordered manyFiles).take maxFiles)
  have hfits := parts_fit hplain
  rw [heq, hrest] at hflatten hfits
  rw [List.flatten_singleton, List.nil_append, List.nil_append] at hflatten
  have hbytes := hfits _ List.mem_cons_self
  rw [List.nil_append, hflatten] at hbytes
  have hlength : (ordered manyFiles).length = 800 := by
    rw [ordered, (List.mergeSort_perm _ _).length_eq, Std.ExtTreeMap.length_toList, manyFiles,
      Std.ExtTreeMap.size_ofList]
    · rw [manyEntries, List.length_map, List.length_range]
    · have hnodup := nodup_manyEntries
      rw [List.Nodup, List.pairwise_map] at hnodup
      exact hnodup.imp (fun hne heq => hne (Std.LawfulEqCmp.eq_of_compare heq))
  have hsum := List.card_nsmul_le_sum
    (((ordered manyFiles).take maxFiles).map (fun item => wireLength item + 1)) 51 (by
      intro n hn
      obtain ⟨item, -, rfl⟩ := List.mem_map.mp hn
      exact Nat.succ_le_succ (le_wireLength item))
  rw [List.length_map, List.length_take, hlength] at hsum
  have hmax : min maxFiles 800 = 800 ∧ maxPacketBytes - 512 = 40448 := ⟨rfl, rfl⟩
  rw [hmax.1, smul_eq_mul] at hsum
  unfold partBytes at hbytes
  omega

end DeskLink.Folders
