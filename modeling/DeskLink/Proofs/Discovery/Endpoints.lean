import DeskLink.Discovery.Endpoints
import DeskLink.Lib.Run
import DeskLink.Lib.Settle

/-!
# `DeskLink.Proofs.Discovery.Endpoints`: what is remembered follows the pairings

`Sound` is what every interleaving keeps: the file within its limit, and the cache like
the file but for phones whose writer is still to run.

For each phone a waiting writer writes an address, drops the phone or leaves it alone
(`Writer.effect`), so what the file comes to is `settle` of the writers. `Follows` says
that this is the latest address of each phone. It is kept as long as no writer overtakes
an older one that says otherwise about some phone, and no phone is paired again before
its unpairing is through (`Orderly`).
-/

set_option autoImplicit false

namespace DeskLink.Discovery

open Lib (runFrom Always StepsMeet settle)

variable {walk : KeyWalk} {deviceId : String} {all : KeyMap SocketAddr} {trusted : KeySet}
  {address : SocketAddr}

/-! ### The cap -/

/-- While there is no room, there is another phone to drop. -/
theorem pruned_finds (walk : KeyWalk) (deviceId : String) {all : KeyMap SocketAddr}
    (h : maxPersistedEndpoints < all.size) :
    ∃ extra, (walk.order all.keys).find? (fun id => id ≠ deviceId) = some extra ∧ extra ∈ all := by
  have hlength : (walk.order all.keys).length = all.size := by
    rw [(walk.perm _).length_eq, Std.ExtTreeMap.length_keys]
  have hnodup : (walk.order all.keys).Nodup :=
    (walk.perm _).nodup_iff.mpr Std.ExtTreeMap.nodup_keys
  cases hfind : (walk.order all.keys).find? (fun id => id ≠ deviceId) with
  | none =>
    -- All of them would be that phone.
    have hsame : ∀ id ∈ walk.order all.keys, id = deviceId := by
      simpa using hfind
    have hfew : (walk.order all.keys).length ≤ [deviceId].length :=
      (List.subperm_of_subset hnodup (fun id hid => by
        rw [hsame id hid]; exact List.mem_singleton_self _)).length_le
    rw [hlength] at hfew
    have hone : maxPersistedEndpoints < 1 := h.trans_le hfew
    exact absurd hone (by decide)
  | some extra =>
    have hmem := List.mem_of_find?_eq_some hfind
    rw [(walk.perm _).mem_iff, Std.ExtTreeMap.mem_keys] at hmem
    exact ⟨extra, rfl, hmem⟩

theorem size_pruned {rounds : Nat} (h : all.size ≤ maxPersistedEndpoints + rounds) :
    (pruned walk deviceId rounds all).size ≤ maxPersistedEndpoints := by
  induction rounds generalizing all with
  | zero => exact h
  | succ rounds ih =>
    rw [pruned]
    split
    · rename_i hfull
      obtain ⟨extra, hfind, hmem⟩ := pruned_finds walk deviceId hfull
      rw [hfind]
      refine ih ?_
      rw [Std.ExtTreeMap.size_erase, if_pos (Std.ExtTreeMap.contains_iff_mem.mpr hmem)]
      omega
    · rename_i hroom
      exact Nat.not_lt.mp hroom

theorem pruned_of_room {rounds : Nat} (h : all.size ≤ maxPersistedEndpoints) :
    pruned walk deviceId rounds all = all := by
  cases rounds with
  | zero => rfl
  | succ rounds => rw [pruned, if_neg (Nat.not_lt.mpr h)]

theorem pruned_some {rounds : Nat} {id : String} {a : SocketAddr}
    (h : (pruned walk deviceId rounds all)[id]? = some a) : all[id]? = some a := by
  induction rounds generalizing all with
  | zero => exact h
  | succ rounds ih =>
    rw [pruned] at h
    split at h
    · split at h
      · exact h
      · have hless := ih h
        rw [getElem?_keyErase] at hless
        split at hless
        · cases hless
        · exact hless
    · exact h

/-! ### What a writer does to one phone's entry -/

/-- What the writer makes of the entry of `id`: nothing (`none`), no entry, or an address. -/
def Writer.effect : Writer → String → Option (Option SocketAddr)
  | .persist deviceId address trusted, id =>
    if id ∈ trusted then if id = deviceId then some (some address) else none else some none
  | .unpersist deviceId, id => if id = deviceId then some none else none

/-- The map before it is capped. -/
def uncapped (all : KeyMap SocketAddr) (deviceId : String) (address : SocketAddr)
    (trusted : KeySet) : KeyMap SocketAddr :=
  if trusted.contains deviceId then
    (all.filter (fun id _ => trusted.contains id)).insert deviceId address
  else all.filter (fun id _ => trusted.contains id)

theorem getElem?_uncapped (id : String) :
    (uncapped all deviceId address trusted)[id]?
      = ((Writer.persist deviceId address trusted).effect id).getD all[id]? := by
  have hfilter : (all.filter (fun id _ => trusted.contains id))[id]?
      = if id ∈ trusted then all[id]? else none := by
    rw [getElem?_keyFilter]
    by_cases hid : id ∈ trusted
    · rw [if_pos hid, Std.ExtTreeSet.contains_iff_mem.mpr hid]
      cases all[id]? <;> rfl
    · have hout : trusted.contains id = false := by
        rw [← Bool.not_eq_true, Std.ExtTreeSet.contains_iff_mem]
        exact hid
      rw [if_neg hid, hout]
      cases all[id]? <;> rfl
  rw [uncapped, Writer.effect]
  split
  · rename_i hdevice
    rw [getElem?_keyInsert, hfilter]
    by_cases hsame : deviceId = id
    · rw [if_pos hsame, if_pos (hsame ▸ Std.ExtTreeSet.contains_iff_mem.mp hdevice),
        if_pos hsame.symm]
      rfl
    · rw [if_neg hsame]
      split
      · rw [if_neg (Ne.symm hsame)]
        rfl
      · rfl
  · rename_i hdevice
    rw [hfilter]
    split
    · rename_i hid
      have hne : id ≠ deviceId := by
        rintro rfl
        exact hdevice (Std.ExtTreeSet.contains_iff_mem.mpr hid)
      rw [if_neg hne]
      rfl
    · rfl

theorem updatedEndpoints_eq : updatedEndpoints walk all deviceId address trusted
    = pruned walk deviceId (uncapped all deviceId address trusted).size
        (uncapped all deviceId address trusted) := rfl

theorem size_updatedEndpoints :
    (updatedEndpoints walk all deviceId address trusted).size ≤ maxPersistedEndpoints := by
  rw [updatedEndpoints_eq]
  exact size_pruned (Nat.le_add_left _ _)

/-- An entry that is left is the one that the writer's effect says. -/
theorem updatedEndpoints_some {id : String} {a : SocketAddr}
    (h : (updatedEndpoints walk all deviceId address trusted)[id]? = some a) :
    ((Writer.persist deviceId address trusted).effect id).getD all[id]? = some a := by
  rw [← getElem?_uncapped]
  exact pruned_some h

theorem size_uncapped_le : (uncapped all deviceId address trusted).size ≤ trusted.size := by
  have hsub : (uncapped all deviceId address trusted).keys ⊆ trusted.toList := by
    intro id hid
    rw [Std.ExtTreeMap.mem_keys, Std.ExtTreeMap.mem_iff_isSome_getElem?, getElem?_uncapped,
      Writer.effect] at hid
    rw [Std.ExtTreeSet.mem_toList]
    by_contra hout
    rw [if_neg hout] at hid
    cases hid
  have hle := (List.subperm_of_subset Std.ExtTreeMap.nodup_keys hsub).length_le
  rwa [Std.ExtTreeMap.length_keys, Std.ExtTreeSet.length_toList] at hle

/-- With no more phones than the cap the writer does just what its effects say. -/
theorem getElem?_updatedEndpoints (h : trusted.size ≤ maxPersistedEndpoints) (id : String) :
    (updatedEndpoints walk all deviceId address trusted)[id]?
      = ((Writer.persist deviceId address trusted).effect id).getD all[id]? := by
  rw [updatedEndpoints_eq, pruned_of_room (size_uncapped_le.trans h), getElem?_uncapped]

/-- The phones that a writer has as paired are no more than the cap. -/
def Writer.Few : Writer → Prop
  | .persist _ _ trusted => trusted.size ≤ maxPersistedEndpoints
  | .unpersist _ => True

/-- Two writers say otherwise about some phone. -/
def Writer.Conflict (older newer : Writer) : Prop :=
  ∃ id, older.effect id ≠ none ∧ newer.effect id ≠ none ∧ older.effect id ≠ newer.effect id

namespace Endpoints

variable {m m' : Endpoints} {writer : Writer} {op : EndpointStep}

theorem run_trusted : (m.run walk writer).trusted = m.trusted := by
  cases writer with
  | persist => rfl
  | unpersist => rw [run]; split <;> rfl

theorem run_calls : (m.run walk writer).unpaired = m.unpaired ∧
    (m.run walk writer).portless = m.portless ∧ (m.run walk writer).latest = m.latest := by
  cases writer with
  | persist => exact ⟨rfl, rfl, rfl⟩
  | unpersist => rw [run]; split <;> exact ⟨rfl, rfl, rfl⟩

/-- What is left in the file is what the writer's effect says, and without the cap all of
that is. -/
theorem run_file (m : Endpoints) (walk : KeyWalk) (writer : Writer) (id : String) :
    (∀ a, (m.run walk writer).file[id]? = some a →
        (writer.effect id).getD m.file[id]? = some a) ∧
      (writer.Few → (m.run walk writer).file[id]? = (writer.effect id).getD m.file[id]?) := by
  cases writer with
  | persist deviceId address trusted =>
    exact ⟨fun a h => updatedEndpoints_some h, fun hfew => getElem?_updatedEndpoints hfew id⟩
  | unpersist deviceId =>
    have hsame : (m.run walk (.unpersist deviceId)).file[id]?
        = ((Writer.unpersist deviceId).effect id).getD m.file[id]? := by
      rw [run, Writer.effect]
      split
      · rw [getElem?_keyErase]
        by_cases hid : deviceId = id
        · rw [if_pos hid, if_pos hid.symm]
          rfl
        · rw [if_neg hid, if_neg (Ne.symm hid)]
          rfl
      · rename_i hout
        have hnone : m.file[deviceId]? = none := by
          rw [Bool.not_eq_true, ← Bool.not_eq_true', not_contains_iff] at hout
          exact hout
        split
        · rename_i hid
          rw [hid, hnone]
          rfl
        · rfl
    rw [hsame]
    exact ⟨fun a h => h, fun _ => rfl⟩

/-! ### The cache -/

structure Sound (m : Endpoints) : Prop where
  few : m.file.size ≤ maxPersistedEndpoints
  /-- A phone that is in the file only is to be dropped from it. -/
  cached : ∀ cached, m.cache = some cached → ∀ id, cached[id]? = m.file[id]? ∨
    cached[id]? = none ∧ Writer.unpersist id ∈ m.pending

/-- Steps that leave the file and the cache, and no writer out. -/
theorem Sound.same (h : m.Sound) (hfile : m'.file = m.file) (hcache : m'.cache = m.cache)
    (hpending : m.pending ⊆ m'.pending) : m'.Sound where
  few := by rw [hfile]; exact h.few
  cached cached hcached id := by
    rw [hcache] at hcached
    rw [hfile]
    exact (h.cached cached hcached id).imp_right (fun both => ⟨both.1, hpending both.2⟩)

theorem Sound.persistPaired (h : m.Sound) (deviceId : String) (ip : Relay.IpAddr) :
    (m.persistPairedEndpoint deviceId ip).Sound := by
  unfold persistPairedEndpoint
  split
  · exact h
  · split
    · exact h
    · exact h.same rfl rfl (List.subset_append_left _ _)

theorem Sound.remember (h : m.Sound) (deviceId : String) (port : Option Nat) (trusted : Bool) :
    (m.rememberEndpoint deviceId port trusted).Sound := by
  unfold rememberEndpoint
  split
  · exact h
  · split
    · exact h
    · exact h.same rfl rfl (fun _ hmem => hmem)

theorem Sound.forgetCached (h : m.Sound) (deviceId : String) :
    Sound { m with
      cache := m.cache.map (fun cached => cached.erase deviceId)
      portless := m.portless.erase deviceId
      pending := m.pending ++ [.unpersist deviceId] } where
  few := h.few
  cached cached hcached id := by
    obtain ⟨before, hbefore, rfl⟩ := Option.map_eq_some_iff.mp hcached
    rw [getElem?_keyErase]
    by_cases hid : deviceId = id
    · rw [if_pos hid, hid]
      exact .inr ⟨rfl, List.mem_append_right _ (List.mem_singleton_self _)⟩
    · rw [if_neg hid]
      exact (h.cached before hbefore id).imp_right
        (fun both => ⟨both.1, List.mem_append_left _ both.2⟩)

/-- A writer ran that was waiting between these. -/
theorem Sound.ran (h : m.Sound) {before after : List Writer}
    (hpending : m.pending = before ++ writer :: after) (walk : KeyWalk) :
    Sound { m.run walk writer with pending := before ++ after } := by
  cases writer with
  | persist deviceId address trusted =>
    refine ⟨size_updatedEndpoints, fun cached hcached id => .inl ?_⟩
    cases hcached
    rfl
  | unpersist deviceId =>
    by_cases hin : m.file.contains deviceId = true
    · have hrun : m.run walk (.unpersist deviceId)
          = { m with cache := some (m.file.erase deviceId), file := m.file.erase deviceId } :=
        if_pos hin
      rw [hrun]
      refine ⟨Std.ExtTreeMap.size_erase_le.trans h.few, fun cached hcached id => .inl ?_⟩
      cases hcached
      rfl
    · have hrun : m.run walk (.unpersist deviceId) = m := if_neg hin
      rw [hrun]
      refine ⟨h.few, fun cached hcached id => ?_⟩
      have hnone : m.file[deviceId]? = none := by
        rw [Bool.not_eq_true, ← Bool.not_eq_true', not_contains_iff] at hin
        exact hin
      obtain hsame | ⟨hout, hwaits⟩ := h.cached cached hcached id
      · exact .inl hsame
      · by_cases hid : id = deviceId
        · rw [hid] at hout ⊢
          exact .inl (hout.trans hnone.symm)
        · -- Another phone's writer is still there.
          refine .inr ⟨hout, ?_⟩
          rw [hpending, List.mem_append, List.mem_cons] at hwaits
          rw [List.mem_append]
          obtain hb | heq | ha := hwaits
          · exact .inl hb
          · cases heq
            exact absurd rfl hid
          · exact .inr ha

/-- The writer at a place, and those on its sides. -/
theorem write_cases {index : Nat} (h : m.step (.write index walk) = some m') :
    ∃ before writer after, m.pending = before ++ writer :: after ∧ before = m.pending.take index ∧
      m.pending[index]? = some writer ∧
      m' = { m.run walk writer with pending := before ++ after } := by
  simp only [step] at h
  split at h
  · cases h
  · rename_i writer hget
    cases h
    obtain ⟨hlt, rfl⟩ := List.getElem?_eq_some_iff.mp hget
    refine ⟨m.pending.take index, _, m.pending.drop (index + 1), ?_, rfl, hget, ?_⟩
    · rw [← List.drop_eq_getElem_cons hlt, List.take_append_drop]
    · rw [List.eraseIdx_eq_take_drop_succ]

theorem step_sound (h : m.Sound) (hstep : m.step op = some m') : m'.Sound := by
  cases op with
  | pair deviceId =>
    cases hstep
    exact h.same rfl rfl (fun _ hmem => hmem)
  | unpair deviceId =>
    cases hstep
    exact h.same rfl rfl (fun _ hmem => hmem)
  | forgetKnown deviceId =>
    simp only [step] at hstep
    split at hstep
    · cases hstep
      exact h.same rfl rfl (fun _ hmem => hmem)
    · cases hstep
  | forgetCached deviceId =>
    simp only [step] at hstep
    split at hstep
    · cases hstep
      exact h.forgetCached deviceId
    · cases hstep
  | remember deviceId port trusted =>
    cases hstep
    exact h.remember deviceId port trusted
  | link deviceId ip =>
    cases hstep
    exact h.persistPaired deviceId ip
  | look =>
    cases hstep
    refine ⟨h.few, fun cached hcached id => ?_⟩
    have hcached : some (m.cache.getD m.file) = some cached := hcached
    cases hcache : m.cache with
    | none =>
      rw [hcache, Option.getD_none] at hcached
      cases hcached
      exact .inl rfl
    | some known =>
      rw [hcache, Option.getD_some] at hcached
      exact h.cached cached (hcache.trans hcached) id
  | write index walk =>
    obtain ⟨before, writer, after, hpending, -, -, rfl⟩ := write_cases hstep
    exact h.ran hpending walk

/-! ### What the file comes to -/

/-- The entry of a phone when all the writers have run in the order of their calls. -/
def due (m : Endpoints) (id : String) : Option SocketAddr :=
  settle (m.pending.map (fun writer => writer.effect id)) m.file[id]?

/-- `forget_addresses` is at work for the phone. -/
def Forgetting (m : Endpoints) (id : String) : Prop := id ∈ m.unpaired ∨ id ∈ m.portless

/-- The file comes to the latest address of each phone. Where more phones than the cap
were paired (`full = false`) some may be missing. -/
structure Follows (full : Bool) (m : Endpoints) : Prop where
  gone : ∀ id, m.Forgetting id → id ∉ m.trusted
  latest : ∀ id, id ∉ m.trusted → m.latest id = none
  few : full = true → ∀ writer ∈ m.pending, writer.Few
  due : ∀ id, ¬m.Forgetting id → ∀ a, m.due id = some a → m.latest id = some a
  whole : full = true → ∀ id, ¬m.Forgetting id → m.due id = m.latest id

/-- No writer overtakes an older one that says otherwise, and no phone is paired while an
unpairing of it is at work. -/
def Orderly (m : Endpoints) : EndpointStep → Prop
  | .pair deviceId => ¬m.Forgetting deviceId
  | .write index _ => ∀ writer, m.pending[index]? = some writer →
      ∀ older ∈ m.pending.take index, ¬Writer.Conflict older writer
  | .unpair _ | .forgetKnown _ | .forgetCached _ | .remember _ _ _ | .link _ _ | .look => True

theorem due_spawned {writer : Writer} (hfile : m'.file = m.file)
    (hpending : m'.pending = m.pending ++ [writer]) (id : String) :
    m'.due id = (writer.effect id).getD (m.due id) := by
  rw [due, due, hfile, hpending, List.map_append, List.map_cons, List.map_nil, Lib.settle_snoc]

theorem due_same (hfile : m'.file = m.file) (hpending : m'.pending = m.pending) (id : String) :
    m'.due id = m.due id := by
  rw [due, due, hfile, hpending]

variable {full : Bool}

/-- Steps that leave all of it. -/
theorem Follows.same (h : m.Follows full) (htrusted : m'.trusted = m.trusted)
    (hforgetting : ∀ id, m'.Forgetting id ↔ m.Forgetting id) (hlatest : m'.latest = m.latest)
    (hfile : m'.file = m.file) (hpending : m'.pending = m.pending) : m'.Follows full where
  gone id hid := by
    rw [htrusted]
    exact h.gone id ((hforgetting id).mp hid)
  latest id hid := by
    rw [hlatest]
    exact h.latest id (htrusted ▸ hid)
  few hfull := by
    rw [hpending]
    exact h.few hfull
  due id hid := by
    rw [due_same hfile hpending, hlatest]
    exact h.due id (fun hbefore => hid ((hforgetting id).mpr hbefore))
  whole hfull id hid := by
    rw [due_same hfile hpending, hlatest]
    exact h.whole hfull id (fun hbefore => hid ((hforgetting id).mpr hbefore))

theorem Follows.pair (h : m.Follows full) {deviceId : String} (hnot : ¬m.Forgetting deviceId) :
    Follows full { m with trusted := m.trusted.insert deviceId } where
  gone id hid := by
    rw [mem_keyInsert, not_or]
    refine ⟨?_, h.gone id hid⟩
    rintro rfl
    exact hnot hid
  latest id hid := by
    rw [mem_keyInsert, not_or] at hid
    exact h.latest id hid.2
  few := h.few
  due := h.due
  whole := h.whole

theorem Follows.unpair (h : m.Follows full) (deviceId : String) :
    Follows full { m with
      trusted := m.trusted.erase deviceId
      unpaired := m.unpaired ++ [deviceId]
      latest := Function.update m.latest deviceId none } := by
  have hothers (id : String) (hid : ¬(id ∈ m.unpaired ++ [deviceId] ∨ id ∈ m.portless)) :
      id ≠ deviceId ∧ ¬m.Forgetting id := by
    rw [List.mem_append, List.mem_singleton, not_or, not_or] at hid
    exact ⟨hid.1.2, not_or.mpr ⟨hid.1.1, hid.2⟩⟩
  refine ⟨fun id hid => ?_, fun id hid => ?_, h.few, fun id hid => ?_, fun hfull id hid => ?_⟩
  · rw [mem_keyErase]
    rintro ⟨hne, hmem⟩
    have hid : id ∈ m.unpaired ++ [deviceId] ∨ id ∈ m.portless := hid
    rw [List.mem_append, List.mem_singleton] at hid
    obtain (hold | rfl) | hold := hid
    · exact h.gone id (.inl hold) hmem
    · exact hne rfl
    · exact h.gone id (.inr hold) hmem
  · show Function.update m.latest deviceId none id = none
    by_cases hsame : id = deviceId
    · rw [hsame, Function.update_self]
    · rw [Function.update_of_ne hsame]
      refine h.latest id (fun hmem => hid ?_)
      exact (mem_keyErase _ _ _).mpr ⟨Ne.symm hsame, hmem⟩
  · obtain ⟨hne, hnot⟩ := hothers id hid
    show ∀ a, _ → Function.update m.latest deviceId none id = some a
    rw [Function.update_of_ne hne]
    exact h.due id hnot
  · obtain ⟨hne, hnot⟩ := hothers id hid
    show _ = Function.update m.latest deviceId none id
    rw [Function.update_of_ne hne]
    exact h.whole hfull id hnot

theorem Follows.forgetCached (h : m.Follows full) {deviceId : String}
    (hmem : deviceId ∈ m.portless) :
    Follows full { m with
      cache := m.cache.map (fun cached => cached.erase deviceId)
      portless := m.portless.erase deviceId
      pending := m.pending ++ [.unpersist deviceId] } := by
  have hmore (id : String) (hid : id ∈ m.unpaired ∨ id ∈ m.portless.erase deviceId) :
      m.Forgetting id := hid.imp_right List.mem_of_mem_erase
  have hothers (id : String) (hid : ¬(id ∈ m.unpaired ∨ id ∈ m.portless.erase deviceId))
      (hne : id ≠ deviceId) : ¬m.Forgetting id := by
    rintro (hold | hold)
    · exact hid (.inl hold)
    · exact hid (.inr ((List.mem_erase_of_ne hne).mpr hold))
  -- The phone that is forgotten has no address any more.
  have hnone : m.latest deviceId = none := h.latest deviceId (h.gone deviceId (.inr hmem))
  have hspawned := @due_spawned m { m with
      cache := m.cache.map (fun cached => cached.erase deviceId)
      portless := m.portless.erase deviceId
      pending := m.pending ++ [.unpersist deviceId] } (.unpersist deviceId) rfl rfl
  refine ⟨fun id hid => h.gone id (hmore id hid), h.latest, fun hfull writer hwriter => ?_,
    fun id hid => ?_, fun hfull id hid => ?_⟩
  · obtain hold | hnew := List.mem_append.mp hwriter
    · exact h.few hfull writer hold
    · rw [List.mem_singleton.mp hnew]
      trivial
  · rw [hspawned, Writer.effect]
    by_cases hsame : id = deviceId
    · rw [if_pos hsame]
      exact fun a ha => by cases ha
    · rw [if_neg hsame]
      exact h.due id (hothers id hid hsame)
  · rw [hspawned, Writer.effect]
    by_cases hsame : id = deviceId
    · rw [if_pos hsame, hsame]
      exact hnone.symm
    · rw [if_neg hsame]
      exact h.whole hfull id (hothers id hid hsame)

theorem Follows.persistPaired (h : m.Follows full)
    (hroom : full = true → m.trusted.size ≤ maxPersistedEndpoints) (deviceId : String)
    (ip : Relay.IpAddr) : (m.persistPairedEndpoint deviceId ip).Follows full := by
  unfold persistPairedEndpoint
  split
  · exact h
  · split
    · exact h
    · rename_i port _
      have hspawned := @due_spawned m { m with
          pending := m.pending ++ [.persist deviceId ⟨ip, port⟩ m.trusted]
          latest :=
            if deviceId ∈ m.trusted then Function.update m.latest deviceId (some ⟨ip, port⟩)
            else m.latest } _ rfl rfl
      have hlatest (id : String) :
          (if deviceId ∈ m.trusted then Function.update m.latest deviceId (some ⟨ip, port⟩)
            else m.latest) id
            = ((Writer.persist deviceId ⟨ip, port⟩ m.trusted).effect id).getD (m.latest id) := by
        rw [Writer.effect]
        by_cases hid : id ∈ m.trusted
        · rw [if_pos hid]
          by_cases hsame : id = deviceId
          · rw [if_pos hsame, if_pos (hsame ▸ hid), hsame, Function.update_self]
            rfl
          · rw [if_neg hsame]
            split
            · exact Function.update_of_ne hsame _ _
            · rfl
        · -- An unpaired phone has no address, and the writer drops it.
          rw [if_neg hid, Option.getD_some]
          split
          · rename_i hdevice
            have hne : id ≠ deviceId := fun heq => hid (heq ▸ hdevice)
            rw [Function.update_of_ne hne]
            exact h.latest id hid
          · exact h.latest id hid
      refine ⟨h.gone, fun id hid => ?_, fun hfull writer hwriter => ?_, fun id hid a => ?_,
        fun hfull id hid => ?_⟩
      · refine (hlatest id).trans ?_
        rw [Writer.effect, if_neg hid]
        rfl
      · obtain hold | hnew := List.mem_append.mp hwriter
        · exact h.few hfull writer hold
        · rw [List.mem_singleton.mp hnew]
          exact hroom hfull
      · rw [hspawned]
        intro ha
        refine (hlatest id).trans ?_
        cases heffect : (Writer.persist deviceId ⟨ip, port⟩ m.trusted).effect id with
        | none =>
          rw [heffect] at ha
          exact h.due id hid a ha
        | some b =>
          rw [heffect] at ha
          exact ha
      · rw [hspawned, h.whole hfull id hid]
        exact (hlatest id).symm

/-- A writer runs that overtakes none that says otherwise. -/
theorem Follows.ran (h : m.Follows full) {before after : List Writer}
    (hpending : m.pending = before ++ writer :: after)
    (horderly : ∀ older ∈ before, ¬Writer.Conflict older writer) (walk : KeyWalk) :
    Follows full { m.run walk writer with pending := before ++ after } := by
  obtain ⟨hunpaired, hportless, hlatest⟩ := @run_calls walk m writer
  have hforgetting (id : String) :
      Forgetting { m.run walk writer with pending := before ++ after } id ↔ m.Forgetting id := by
    rw [Forgetting, Forgetting, hunpaired, hportless]
  have htake (id : String) : settle ((before ++ after).map (fun writer => writer.effect id))
      ((writer.effect id).getD m.file[id]?) = m.due id := by
    rw [Endpoints.due, hpending, List.map_append, List.map_append, List.map_cons]
    refine Lib.settle_take_out _ (fun old hold => ?_)
    obtain ⟨older, holder, rfl⟩ := List.mem_map.mp hold
    have hno := horderly older holder
    rw [Writer.Conflict, not_exists] at hno
    have hid := hno id
    tauto
  refine ⟨fun id hid => ?_, fun id hid => ?_, fun hfull w hw => ?_, fun id hid a ha => ?_,
    fun hfull id hid => ?_⟩
  · rw [run_trusted]
    exact h.gone id ((hforgetting id).mp hid)
  · rw [run_trusted] at hid
    exact (congrFun hlatest id).trans (h.latest id hid)
  · refine h.few hfull w ?_
    rw [hpending, List.mem_append, List.mem_cons]
    exact (List.mem_append.mp hw).imp_right .inr
  · refine (congrFun hlatest id).trans ?_
    refine h.due id (fun hold => hid ((hforgetting id).mpr hold)) a ?_
    rw [← htake id]
    exact Lib.settle_of_lost (run_file m walk writer id).1 a ha
  · have hfew : writer.Few := h.few hfull writer (by rw [hpending]; simp)
    have hwhole := h.whole hfull id (fun hold => hid ((hforgetting id).mpr hold))
    refine Eq.trans ?_ (hwhole.trans (congrFun hlatest.symm id))
    rw [← htake id, ← (run_file m walk writer id).2 hfew]
    rfl

/-- One step of a writer or of a call. -/
theorem step_follows (h : m.Follows full)
    (hroom : full = true → m.trusted.size ≤ maxPersistedEndpoints) (horderly : m.Orderly op)
    (hstep : m.step op = some m') : m'.Follows full := by
  cases op with
  | pair deviceId =>
    cases hstep
    exact h.pair horderly
  | unpair deviceId =>
    cases hstep
    exact h.unpair deviceId
  | forgetKnown deviceId =>
    simp only [step] at hstep
    split at hstep
    · rename_i hmem
      cases hstep
      refine h.same rfl (fun id => ?_) rfl rfl rfl
      show id ∈ m.unpaired.erase deviceId ∨ id ∈ m.portless ++ [deviceId] ↔
        id ∈ m.unpaired ∨ id ∈ m.portless
      rw [List.mem_append, List.mem_singleton]
      by_cases hsame : id = deviceId
      · rw [hsame]
        exact iff_of_true (.inr (.inr rfl)) (.inl hmem)
      · rw [List.mem_erase_of_ne hsame, or_iff_left hsame]
    · cases hstep
  | forgetCached deviceId =>
    simp only [step] at hstep
    split at hstep
    · rename_i hmem
      cases hstep
      exact h.forgetCached hmem
    · cases hstep
  | remember deviceId port trusted =>
    cases hstep
    unfold rememberEndpoint
    split
    · exact h
    · split
      · exact h
      · exact h.same rfl (fun _ => Iff.rfl) rfl rfl rfl
  | link deviceId ip =>
    cases hstep
    exact h.persistPaired hroom deviceId ip
  | look =>
    cases hstep
    exact h.same rfl (fun _ => Iff.rfl) rfl rfl rfl
  | write index walk =>
    obtain ⟨before, writer, after, hpending, rfl, hget, rfl⟩ := write_cases hstep
    exact h.ran hpending (horderly writer hget) walk

/-! ### Runs -/

variable {file : KeyMap SocketAddr}

/-- The file of an earlier run has paired phones only, no more than the cap. -/
structure Left (trusted : KeySet) (file : KeyMap SocketAddr) : Prop where
  few : file.size ≤ maxPersistedEndpoints
  paired : ∀ id, id ∈ file → id ∈ trusted

theorem start_sound (h : Left trusted file) : (start trusted file).Sound where
  few := h.few
  cached cached hcached := by cases hcached

theorem start_follows (h : Left trusted file) : (start trusted file).Follows full where
  gone id hid := by
    rw [Forgetting] at hid
    exact absurd hid (by simp [start])
  latest id hid := by
    show file[id]? = none
    exact Std.ExtTreeMap.getElem?_eq_none (fun hmem => hid (h.paired id hmem))
  few _ writer hwriter := by cases hwriter
  due id _ a ha := ha
  whole _ id _ := rfl

theorem run_sound {ops : List EndpointStep} (h : Left trusted file)
    (hrun : runFrom step (start trusted file) ops = some m) : m.Sound :=
  Lib.runFrom_invariant (I := Sound) (fun _ _ _ h hstep => step_sound h hstep) (start_sound h) hrun

/-- When all the calls and the writers are through, the cache is the file or is empty, and
the file stays within its limit. Where the steps were orderly the file has paired phones
only, each at its latest address. It has all of these if there never were more paired
phones than the limit. -/
theorem endpoints_follow {ops : List EndpointStep} (h : Left trusted file)
    (hrun : runFrom step (start trusted file) ops = some m)
    (hunpaired : m.unpaired = []) (hportless : m.portless = []) (hpending : m.pending = []) :
    (∀ cached, m.cache = some cached → cached = m.file) ∧
    m.file.size ≤ maxPersistedEndpoints ∧
    (StepsMeet step Orderly (start trusted file) ops →
      (∀ id ∈ m.file, id ∈ m.trusted) ∧
      (∀ id a, m.file[id]? = some a → m.latest id = some a) ∧
      (Always step (fun m => m.trusted.size ≤ maxPersistedEndpoints) (start trusted file) ops →
        ∀ id ∈ m.trusted, m.file[id]? = m.latest id)) := by
  have hsound := run_sound h hrun
  have hnot (id : String) : ¬m.Forgetting id := by
    rw [Forgetting, hunpaired, hportless]
    simp
  have hdue (id : String) : m.due id = m.file[id]? := by
    rw [due, hpending]
    rfl
  refine ⟨fun cached hcached => ?_, hsound.few, fun horderly => ?_⟩
  · refine Std.ExtTreeMap.ext_getElem? (fun id => ?_)
    obtain hsame | ⟨-, hwaits⟩ := hsound.cached cached hcached id
    · exact hsame
    · rw [hpending] at hwaits
      cases hwaits
  · have hfollows : m.Follows false :=
      Lib.runFrom_invariant_of_steps (I := Follows false)
        (fun _ _ _ h hC hstep => step_follows h (fun hfull => by cases hfull) hC hstep)
        (start_follows h) horderly hrun
    have hlatest (id : String) (a : SocketAddr) (ha : m.file[id]? = some a) :
        m.latest id = some a := hfollows.due id (hnot id) a ((hdue id).trans ha)
    refine ⟨fun id hid => ?_, hlatest, fun halways id _ => ?_⟩
    · by_contra hout
      obtain ⟨a, ha⟩ := Option.isSome_iff_exists.mp
        (Std.ExtTreeMap.mem_iff_isSome_getElem?.mp hid)
      have hnone := hfollows.latest id hout
      rw [hlatest id a ha] at hnone
      cases hnone
    · have hwhole : m.Follows true :=
        Lib.runFrom_invariant_of_steps (I := Follows true)
          (C := fun m op => m.Orderly op ∧ m.trusted.size ≤ maxPersistedEndpoints)
          (fun _ _ _ h hC hstep => step_follows h (fun _ => hC.2) hC.1 hstep)
          (start_follows h) (horderly.and_always halways) hrun
      rw [← hdue id]
      exact hwhole.whole rfl id (hnot id)

def inOrder : KeyWalk := ⟨id, List.Perm.refl⟩

/-- A phone is paired, says where it listens and its link authenticates. -/
def linked : List EndpointStep :=
  [.pair "phone", .remember "phone" (some 1716) true, .link "phone" (.v4 #v[192, 168, 1, 20])]

theorem left_empty : Left ∅ ∅ := ⟨Nat.zero_le _, fun id hid => by simp at hid⟩

/-- Two phones link, and the first is unpaired. The writers run in their order. -/
def linkedTwo : List EndpointStep :=
  [.remember "phone" (some 1716) true, .remember "tablet" (some 1720) true,
    .link "phone" (.v4 #v[192, 168, 1, 20]), .link "tablet" (.v4 #v[192, 168, 1, 21]),
    .write 0 inOrder, .look, .unpair "phone", .forgetKnown "phone", .forgetCached "phone",
    .write 0 inOrder, .write 0 inOrder]

/-- The file has the second phone only, where it was reached. -/
theorem endpoints_follow_two :
    ∃ m, runFrom step (start ∅ ∅) (.pair "phone" :: .pair "tablet" :: linkedTwo) = some m ∧
      m.cache = some m.file ∧ m.file.contains "phone" = false ∧
      (∀ id ∈ m.file, id ∈ m.trusted) ∧
      m.file["tablet"]? = some ⟨.v4 #v[192, 168, 1, 21], 1720⟩ ∧
      m.latest "tablet" = some ⟨.v4 #v[192, 168, 1, 21], 1720⟩ ∧
      ∀ id ∈ m.trusted, m.file[id]? = m.latest id := by
  have hany : (runFrom step (start ∅ ∅) (.pair "phone" :: .pair "tablet" :: linkedTwo)).any
      (fun m => m.unpaired.isEmpty && (m.portless.isEmpty && (m.pending.isEmpty &&
        (m.cache.isSome && (m.file.contains "phone" == false &&
          m.file["tablet"]? == some ⟨.v4 #v[192, 168, 1, 21], 1720⟩))))) = true := by
    decide +kernel
  obtain ⟨m, hm, hidle⟩ := (Option.any_eq_true _ _).mp hany
  simp only [Bool.and_eq_true, List.isEmpty_iff, beq_iff_eq] at hidle
  obtain ⟨hunpaired, hportless, hpending, hcache, hphone, htablet⟩ := hidle
  have horderly : StepsMeet step Orderly (start ∅ ∅)
      (.pair "phone" :: .pair "tablet" :: linkedTwo) := by
    refine ⟨by simp [Orderly, Forgetting, start], fun paired hpaired => ?_⟩
    cases hpaired
    refine ⟨by simp [Orderly, Forgetting, start], fun both _ => ?_⟩
    -- Nobody is paired any more, and each writer is the oldest when it runs.
    refine Lib.stepsMeet_of_forall (fun op hop s => ?_)
    simp only [linkedTwo, List.mem_cons, List.not_mem_nil, or_false] at hop
    obtain rfl | rfl | rfl | rfl | rfl | rfl | rfl | rfl | rfl | rfl | rfl := hop <;>
      simp [Orderly]
  have halways : Always step (fun m => m.trusted.size ≤ maxPersistedEndpoints) (start ∅ ∅)
      (.pair "phone" :: .pair "tablet" :: linkedTwo) := by
    decide +kernel
  obtain ⟨hsame, -, hrest⟩ := endpoints_follow left_empty hm hunpaired hportless hpending
  obtain ⟨hpaired, hlatest, hall⟩ := hrest horderly
  obtain ⟨cached, hcached⟩ := Option.isSome_iff_exists.mp hcache
  exact ⟨m, hm, hcached.trans (congrArg some (hsame cached hcached)), hphone, hpaired, htablet,
    hlatest _ _ htablet, hall halways⟩

/-- The phone is unpaired, and the writer of its link runs after the one of its
unpairing. -/
theorem unpaired_comes_back :
    ∃ m, runFrom step (start ∅ ∅) (linked ++ [EndpointStep.unpair "phone", .forgetKnown "phone",
        .forgetCached "phone", .write 1 inOrder, .write 0 inOrder]) = some m ∧
      m.unpaired = [] ∧ m.portless = [] ∧ m.pending = [] ∧
      m.file.contains "phone" = true ∧ m.trusted.contains "phone" = false := by
  have hany : (runFrom step (start ∅ ∅) (linked ++ [EndpointStep.unpair "phone", .forgetKnown "phone",
      .forgetCached "phone", .write 1 inOrder, .write 0 inOrder])).any
      (fun m => m.unpaired.isEmpty && (m.portless.isEmpty && (m.pending.isEmpty &&
        (m.file.contains "phone" && !m.trusted.contains "phone")))) = true := by
    decide +kernel
  obtain ⟨m, hm, hback⟩ := (Option.any_eq_true _ _).mp hany
  rw [Bool.and_eq_true, Bool.and_eq_true, Bool.and_eq_true, Bool.and_eq_true, List.isEmpty_iff,
    List.isEmpty_iff, List.isEmpty_iff, Bool.not_eq_true'] at hback
  exact ⟨m, hm, hback⟩

end Endpoints

end DeskLink.Discovery
