import DeskLink.Lane.Grants
import DeskLink.Lib.Text

/-!
# `DeskLink.Proofs.Lane.Grants`: lane tokens are single-use and bound

`Grants.Bounded` is the invariant of the table: one token for a transfer,
`maxGrantsPerDevice` for a device and `maxGrants` in all. Every call keeps
it, and `makeRoom_cases` says which token an accept gives up for it.

Where a token comes from is `issued_of_mem`: an entry of the table was
issued by an earlier call, for that transfer and that device.

* `lane_tokens`: what holds of every run whose tokens differ.
* `flood_takes_another`: below its limit a device takes the places of
  others while it has a token of its own.
-/

set_option autoImplicit false

namespace DeskLink.Lane

/-! ### Tokens -/

theorem hexByte_inj {a b : UInt8} (h : hexByte a = hexByte b) : a = b := by
  have hdigit : ∀ i < 16, ∀ j < 16, Nat.digitChar i = Nat.digitChar j → i = j := by decide
  have ha := a.toNat_lt
  have hb := b.toNat_lt
  simp only [hexByte, List.cons.injEq, and_true] at h
  have hhigh := hdigit _ (by omega) _ (by omega) h.1
  have hlow := hdigit _ (by omega) _ (by omega) h.2
  apply UInt8.toNat_inj.mp
  omega

theorem flatMap_hexByte_inj : ∀ {l l' : List UInt8},
    l.flatMap hexByte = l'.flatMap hexByte → l = l'
  | [], [], _ => rfl
  | [], b :: l', h => by simp [hexByte] at h
  | a :: l, [], h => by simp [hexByte] at h
  | a :: l, b :: l', h => by
    rw [List.flatMap_cons, List.flatMap_cons] at h
    obtain ⟨hbyte, hrest⟩ := List.append_inj h rfl
    rw [hexByte_inj hbyte, flatMap_hexByte_inj hrest]

theorem newToken_inj {x y : Vector UInt8 16} (h : newToken x = newToken y) : x = y := by
  have hchars : x.toList.flatMap hexByte = y.toList.flatMap hexByte := by
    simpa [newToken] using congrArg String.toList h
  exact Vector.toList_inj.mp (flatMap_hexByte_inj hchars)

/-! ### What an accept keeps -/

namespace Grants

variable {g : Grants} {table : KeyMap Grant} {walk : Walk} {transferId diallerId token : String}
variable {grant : Grant} {now : Nat}

theorem kept_eq_some : (g.kept transferId now)[token]? = some grant ↔
    g.byToken[token]? = some grant ∧ now < grant.expires ∧ grant.transferId ≠ transferId := by
  unfold kept
  rw [keyFilter_eq_some]
  simp

/-- The token that goes is the first to expire of those that may. -/
theorem oldest_spec (h : oldest walk table diallerId = some (token, grant)) :
    table[token]? = some grant ∧
      (held table diallerId < maxGrantsPerDevice ∨ grant.diallerId = diallerId) ∧
      ∀ (k : String) (other : Grant), table[k]? = some other →
        held table diallerId < maxGrantsPerDevice ∨ other.diallerId = diallerId →
        grant.expires ≤ other.expires := by
  have hmay : ∀ e : String × Grant,
      e ∈ (walk.order table.toList).filter (fun e =>
        decide (held table diallerId < maxGrantsPerDevice) || e.2.diallerId == diallerId) ↔
      table[e.1]? = some e.2 ∧
        (held table diallerId < maxGrantsPerDevice ∨ e.2.diallerId = diallerId) := by
    intro e
    rw [List.mem_filter, (walk.perm _).mem_iff, mem_toList_iff]
    simp
  have hmem := (hmay _).mp (List.argmin_mem h)
  refine ⟨hmem.1, hmem.2, fun k other hk hother => ?_⟩
  exact List.le_of_mem_argmin (f := fun e : String × Grant => e.2.expires)
    ((hmay (k, other)).mpr ⟨hk, hother⟩) h

/-- A full table, or a device at its limit, has a token to give up. -/
theorem exists_oldest (h :
    maxGrantsPerDevice ≤ held table diallerId ∨ maxGrants ≤ table.size) :
    ∃ token grant, oldest walk table diallerId = some (token, grant) := by
  cases hold : oldest walk table diallerId with
  | some e => exact ⟨e.1, e.2, rfl⟩
  | none =>
    exfalso
    have hempty := List.argmin_eq_none.mp hold
    have hnone : ∀ (k : String) (other : Grant), table[k]? = some other →
        ¬(held table diallerId < maxGrantsPerDevice ∨ other.diallerId = diallerId) := by
      intro k other hk hmay
      have hmem : (k, other) ∈ (walk.order table.toList).filter (fun e =>
          decide (held table diallerId < maxGrantsPerDevice) || e.2.diallerId == diallerId) := by
        rw [List.mem_filter, (walk.perm _).mem_iff, mem_toList_iff]
        exact ⟨hk, by simpa using hmay⟩
      rw [hempty] at hmem
      exact List.not_mem_nil hmem
    by_cases hlimit : maxGrantsPerDevice ≤ held table diallerId
    · -- At its limit the device has a token of its own.
      have hzero : held table diallerId = 0 := countWhere_eq_zero (by
        intro k other hk
        have hother := fun heq => hnone k other hk (Or.inr heq)
        simpa using hother)
      rw [hzero] at hlimit
      exact absurd hlimit (by decide)
    · have hsize : countWhere table (fun _ => true) = 0 := countWhere_eq_zero (by
        intro k other hk
        exact absurd (Or.inl (by omega)) (hnone k other hk))
      rw [countWhere_true] at hsize
      have hfull := h.resolve_left hlimit
      rw [hsize] at hfull
      exact absurd hfull (by decide)

/-- An accept has room, or gives up the token that expires first: of the
device's own at its limit, and of them all in a full table. -/
theorem makeRoom_cases (walk : Walk) (table : KeyMap Grant) (diallerId : String) :
    (held table diallerId < maxGrantsPerDevice ∧ table.size < maxGrants ∧
      makeRoom walk table diallerId = table) ∨
    ∃ token grant, makeRoom walk table diallerId = table.erase token ∧
      table[token]? = some grant ∧
      ((maxGrantsPerDevice ≤ held table diallerId ∧ grant.diallerId = diallerId ∧
          ∀ (k : String) (other : Grant), table[k]? = some other →
            other.diallerId = diallerId → grant.expires ≤ other.expires) ∨
        (held table diallerId < maxGrantsPerDevice ∧ maxGrants ≤ table.size ∧
          ∀ (k : String) (other : Grant), table[k]? = some other →
            grant.expires ≤ other.expires)) := by
  by_cases hfull : maxGrantsPerDevice ≤ held table diallerId ∨ maxGrants ≤ table.size
  · right
    obtain ⟨token, grant, hold⟩ := exists_oldest hfull
    have hroom : makeRoom walk table diallerId = table.erase token := by
      unfold makeRoom
      rw [if_pos hfull, hold]
    obtain ⟨hmem, hmay, hfirst⟩ := oldest_spec hold
    refine ⟨token, grant, hroom, hmem, ?_⟩
    by_cases hlimit : maxGrantsPerDevice ≤ held table diallerId
    · left
      refine ⟨hlimit, hmay.resolve_left (by omega), fun k other hk hother => ?_⟩
      exact hfirst k other hk (Or.inr hother)
    · right
      refine ⟨by omega, hfull.resolve_left hlimit, fun k other hk => ?_⟩
      exact hfirst k other hk (Or.inl (by omega))
  · left
    refine ⟨by omega, by omega, ?_⟩
    unfold makeRoom
    rw [if_neg hfull]

theorem makeRoom_sub (h : (makeRoom walk table diallerId)[token]? = some grant) :
    table[token]? = some grant := by
  rcases makeRoom_cases walk table diallerId with ⟨-, -, heq⟩ | ⟨old, _, heq, -⟩
  · rwa [heq] at h
  · rw [heq, getElem?_keyErase] at h
    split at h
    · cases h
    · exact h

/-! ### The bounds of the table -/

structure Bounded (g : Grants) : Prop where
  transfer : ∀ (k k' : String) (a b : Grant), g.byToken[k]? = some a → g.byToken[k']? = some b →
    a.transferId = b.transferId → k = k'
  device : ∀ diallerId, held g.byToken diallerId ≤ maxGrantsPerDevice
  total : g.byToken.size ≤ maxGrants

theorem bounded_empty : Bounded {} where
  transfer k k' a b h := by simp at h
  device diallerId := by
    rw [held, countWhere_eq_zero (by simp)]
    exact Nat.zero_le _
  total := Nat.zero_le _

theorem Bounded.filter (h : g.Bounded) (f : String → Grant → Bool) :
    Bounded ⟨g.byToken.filter f⟩ where
  transfer k k' a b ha hb :=
    h.transfer k k' a b (keyFilter_eq_some.mp ha).1 (keyFilter_eq_some.mp hb).1
  device diallerId := Nat.le_trans (countWhere_filter_le f) (h.device diallerId)
  total := Nat.le_trans Std.ExtTreeMap.size_filter_le_size h.total

theorem Bounded.erase (h : g.Bounded) (token : String) : Bounded ⟨g.byToken.erase token⟩ where
  transfer k k' a b ha hb := by
    simp only [getElem?_keyErase] at ha hb
    split at ha
    · cases ha
    split at hb
    · cases hb
    exact h.transfer k k' a b ha hb
  device diallerId := Nat.le_trans countWhere_erase_le (h.device diallerId)
  total := Nat.le_trans Std.ExtTreeMap.size_erase_le h.total

/-- There is room for one more of the device, and for one more in all. -/
theorem Bounded.makeRoom (h : Bounded ⟨table⟩) (walk : Walk) (diallerId : String) :
    Bounded ⟨makeRoom walk table diallerId⟩ ∧
      held (makeRoom walk table diallerId) diallerId < maxGrantsPerDevice ∧
      (makeRoom walk table diallerId).size < maxGrants := by
  rcases makeRoom_cases walk table diallerId with ⟨hheld, hsize, heq⟩ | ⟨old, grant, heq, hold, hwhy⟩
  · rw [heq]
    exact ⟨h, hheld, hsize⟩
  · rw [heq]
    refine ⟨h.erase old, ?_, ?_⟩
    · rcases hwhy with ⟨-, hown, -⟩ | ⟨hbelow, -⟩
      · have hone : held (table.erase old) diallerId + 1 = held table diallerId :=
          countWhere_erase hold (by simpa using hown)
        have hdevice : held table diallerId ≤ maxGrantsPerDevice := h.device diallerId
        omega
      · exact Nat.lt_of_le_of_lt countWhere_erase_le hbelow
    · have hone := size_erase_of_some hold
      have htotal : table.size ≤ maxGrants := h.total
      omega

theorem Bounded.issue (h : g.Bounded) (walk : Walk) (random : Vector UInt8 16)
    (transferId diallerId : String) (now : Nat) :
    (g.issue walk random transferId diallerId now).2.Bounded := by
  have hkept : Bounded ⟨g.kept transferId now⟩ := h.filter _
  obtain ⟨hroom, hheld, hsize⟩ := hkept.makeRoom walk diallerId
  have hother : ∀ (k : String) (a : Grant),
      (Grants.makeRoom walk (g.kept transferId now) diallerId)[k]? = some a →
        a.transferId ≠ transferId :=
    fun k a ha => (kept_eq_some.mp (makeRoom_sub ha)).2.2
  constructor
  · intro k k' a b ha hb heq
    simp only [Grants.issue, getElem?_keyInsert] at ha hb
    split at ha
    · rename_i hk
      cases ha
      split at hb
      · rename_i hk'
        exact hk.symm.trans hk'
      · exact absurd heq.symm (hother k' b hb)
    · split at hb
      · cases hb
        exact absurd heq (hother k a ha)
      · exact hroom.transfer k k' a b ha hb heq
  · intro someone
    by_cases heq : diallerId = someone
    · subst heq
      exact Nat.le_trans countWhere_insert_le hheld
    · exact Nat.le_trans (countWhere_insert_other (by simpa using heq)) (hroom.device someone)
  · exact Nat.le_trans Std.ExtTreeMap.size_insert_le hsize

theorem redeem_state (g : Grants) (token transferId diallerId : String) (now : Nat) :
    (g.redeem token transferId diallerId now).2 = g ∨
      (g.redeem token transferId diallerId now).2 = ⟨g.byToken.erase token⟩ := by
  unfold redeem
  split
  · split
    · exact Or.inl rfl
    · exact Or.inr rfl
  · exact Or.inl rfl

/-- What a token must be for `redeem` to take it. -/
theorem redeem_ok_iff : (g.redeem token transferId diallerId now).1 = .ok () ↔
    tokenIsWellFormed token = true ∧ ∃ grant, g.byToken[token]? = some grant ∧
      now < grant.expires ∧ grant.transferId = transferId ∧ grant.diallerId = diallerId := by
  unfold redeem
  split
  · rename_i hform
    cases hget : g.byToken[token]? with
    | none => simp
    | some grant =>
      simp only [Option.some.injEq, hform, true_and, exists_eq_left']
      split
      · rename_i hwrong
        constructor
        · intro h
          cases h
        · rintro ⟨hlive, htransfer, hdialler⟩
          rcases hwrong with h | h | h
          · omega
          · exact absurd htransfer h
          · exact absurd hdialler h
      · rename_i hright
        simp only [not_or, not_le, not_not] at hright
        exact ⟨fun _ => hright, fun _ => rfl⟩
  · rename_i hform
    simp [hform]

/-- A token that was taken is in the table no more. -/
theorem redeem_ok_spent (h : (g.redeem token transferId diallerId now).1 = .ok ()) :
    (g.redeem token transferId diallerId now).2.byToken[token]? = none := by
  obtain ⟨hform, grant, hget, -⟩ := redeem_ok_iff.mp h
  unfold redeem
  rw [if_pos hform, hget]
  simp

end Grants

/-! ### Runs -/

open Grants

variable {g : Grants} {grant : Grant} {token diallerId transferId : String} {now i j count : Nat}

theorem GrantOp.run_bounded (h : g.Bounded) (op : GrantOp) : (op.run g).Bounded := by
  cases op with
  | issue walk random transferId diallerId now => exact h.issue walk random transferId diallerId now
  | redeem token transferId diallerId now =>
    rcases redeem_state g token transferId diallerId now with heq | heq
    · show (g.redeem token transferId diallerId now).2.Bounded
      rw [heq]
      exact h
    · show (g.redeem token transferId diallerId now).2.Bounded
      rw [heq]
      exact h.erase token
  | void transferId => exact h.filter _
  | voidDialler diallerId => exact h.filter _

theorem grantsAfter_append (ops : List GrantOp) (op : GrantOp) :
    grantsAfter (ops ++ [op]) = op.run (grantsAfter ops) := List.foldl_append

theorem grantsAfter_bounded (ops : List GrantOp) : (grantsAfter ops).Bounded :=
  List.foldlRecOn ops GrantOp.run bounded_empty (fun _ h op _ => GrantOp.run_bounded h op)

/-- What a call leaves in the table was there, or is what it issued. -/
theorem GrantOp.run_cases {op : GrantOp} (h : (op.run g).byToken[token]? = some grant) :
    g.byToken[token]? = some grant ∨
      ∃ walk random now, op = .issue walk random grant.transferId grant.diallerId now ∧
        newToken random = token ∧ grant.expires = now + tokenTtl := by
  cases op with
  | issue walk random transferId diallerId now =>
    simp only [GrantOp.run, Grants.issue, getElem?_keyInsert] at h
    split at h
    · rename_i htoken
      cases h
      exact Or.inr ⟨walk, random, now, rfl, htoken, rfl⟩
    · exact Or.inl (kept_eq_some.mp (makeRoom_sub h)).1
  | redeem token' transferId diallerId now =>
    left
    rcases redeem_state g token' transferId diallerId now with heq | heq
    · simpa only [GrantOp.run, heq] using h
    · simp only [GrantOp.run, heq, getElem?_keyErase] at h
      split at h
      · cases h
      · exact h
  | void transferId => exact Or.inl (keyFilter_eq_some.mp h).1
  | voidDialler diallerId => exact Or.inl (keyFilter_eq_some.mp h).1

/-- Each token of the table was issued, for its transfer and its device. -/
theorem issued_of_mem {ops : List GrantOp} (h : (grantsAfter ops).byToken[token]? = some grant) :
    ∃ before walk random now rest,
      ops = before ++ .issue walk random grant.transferId grant.diallerId now :: rest ∧
        newToken random = token ∧ grant.expires = now + tokenTtl := by
  induction ops using List.reverseRecOn with
  | nil => simp [grantsAfter] at h
  | append_singleton ops op ih =>
    rw [grantsAfter, List.foldl_append] at h
    rcases GrantOp.run_cases h with hbefore | ⟨walk, random, now, rfl, htoken, hexpires⟩
    · obtain ⟨before, walk, random, now, rest, rfl, htoken, hexpires⟩ := ih hbefore
      exact ⟨before, walk, random, now, rest ++ [op], by simp, htoken, hexpires⟩
    · exact ⟨ops, walk, random, now, [], rfl, htoken, hexpires⟩

/-- A token that is not in the table stays out of it, until it is issued. -/
theorem absent_foldl {ops : List GrantOp} (h : g.byToken[token]? = none)
    (hdrawn : ∀ op ∈ ops, ∀ random, op.drawn = some random → newToken random ≠ token) :
    (ops.foldl GrantOp.run g).byToken[token]? = none := by
  refine List.foldlRecOn (motive := fun g => g.byToken[token]? = none) ops GrantOp.run h
    (fun g h op hop => ?_)
  cases hget : (op.run g).byToken[token]? with
  | none => rfl
  | some grant =>
    rcases GrantOp.run_cases hget with hbefore | ⟨walk, random, now, rfl, htoken, -⟩
    · rw [h] at hbefore
      cases hbefore
    · exact absurd htoken (hdrawn _ hop random rfl)

/-- In a run whose tokens differ, a token is taken once: where it was taken
it had been issued, and it is not issued again. -/
theorem redeemed_once {first rest : List GrantOp}
    (hdrawn : ((first ++ GrantOp.redeem token transferId diallerId now :: rest).filterMap
      GrantOp.drawn).Nodup)
    (hok : ((grantsAfter first).redeem token transferId diallerId now).1 = .ok ()) :
    (∃ before walk random issued middle,
      first = before ++ GrantOp.issue walk random transferId diallerId issued :: middle ∧
        newToken random = token ∧ now < issued + tokenTtl) ∧
    ∀ middle transferId' diallerId' now' last,
      rest = middle ++ GrantOp.redeem token transferId' diallerId' now' :: last →
      ((grantsAfter (first ++ GrantOp.redeem token transferId diallerId now :: middle)).redeem token
        transferId' diallerId' now').1 ≠ .ok () := by
  obtain ⟨-, grant, hget, hlive, htransfer, hdialler⟩ := redeem_ok_iff.mp hok
  obtain ⟨before, walk, random, issued, between, hfirst, htoken, hexpires⟩ := issued_of_mem hget
  rw [htransfer, hdialler] at hfirst
  refine ⟨⟨before, walk, random, issued, between, hfirst, htoken, hexpires ▸ hlive⟩, ?_⟩
  rintro middle transferId' diallerId' now' last rfl hagain
  obtain ⟨-, grant', hget', -⟩ := redeem_ok_iff.mp hagain
  -- The bytes of `token` were drawn in `first`, so no call of `middle` drew them.
  have hother : ∀ op ∈ middle, ∀ random', op.drawn = some random' → newToken random' ≠ token := by
    intro op hop random' hrandom' heq
    have hsame : random' = random := newToken_inj (heq.trans htoken.symm)
    have hin : random ∈ first.filterMap GrantOp.drawn :=
      List.mem_filterMap.mpr ⟨.issue walk random transferId diallerId issued, by simp [hfirst], rfl⟩
    have hafter : random ∈ (.redeem token transferId diallerId now :: (middle ++
        .redeem token transferId' diallerId' now' :: last)).filterMap GrantOp.drawn :=
      List.mem_filterMap.mpr ⟨op, by simp [hop], hsame ▸ hrandom'⟩
    rw [List.filterMap_append] at hdrawn
    exact (List.nodup_append.mp hdrawn).2.2 random hin random hafter rfl
  have habsent := absent_foldl (redeem_ok_spent hok) hother
  rw [grantsAfter, List.foldl_append, List.foldl_cons] at hget'
  exact Option.some_ne_none _ (hget'.symm.trans habsent)

/-- The token that an accept gave up: unexpired, of another transfer, and
gone after it. -/
def Evicted (g : Grants) (op : GrantOp) (transferId : String) (now : Nat) (token : String)
    (grant : Grant) : Prop :=
  (g.kept transferId now)[token]? = some grant ∧ (op.run g).byToken[token]? = none

/-- Where a token goes it is the only one, and the first to expire: of the
device's own at its limit, and of them all in a full table. -/
theorem evicted_oldest {walk : Walk} {random : Vector UInt8 16}
    (h : Evicted g (.issue walk random transferId diallerId now) transferId now token grant) :
    (∀ token' grant', Evicted g (.issue walk random transferId diallerId now) transferId now
      token' grant' → token' = token) ∧
    ((maxGrantsPerDevice ≤ held (g.kept transferId now) diallerId ∧ grant.diallerId = diallerId ∧
        ∀ (k : String) (other : Grant), (g.kept transferId now)[k]? = some other →
          other.diallerId = diallerId → grant.expires ≤ other.expires) ∨
      (held (g.kept transferId now) diallerId < maxGrantsPerDevice ∧
        maxGrants ≤ (g.kept transferId now).size ∧
        ∀ (k : String) (other : Grant), (g.kept transferId now)[k]? = some other →
          grant.expires ≤ other.expires)) := by
  rcases makeRoom_cases walk (g.kept transferId now) diallerId with
    ⟨-, -, heq⟩ | ⟨old, oldGrant, heq, hold, hwhy⟩
  · -- With room for one more every token stays.
    obtain ⟨hkept, hgone⟩ := h
    simp only [GrantOp.run, issue, getElem?_keyInsert, heq] at hgone
    split at hgone
    · cases hgone
    · rw [hkept] at hgone
      cases hgone
  · have honly : ∀ token' grant', Evicted g (.issue walk random transferId diallerId now)
        transferId now token' grant' → token' = old := by
      rintro token' grant' ⟨hkept, hgone⟩
      simp only [GrantOp.run, issue, getElem?_keyInsert, heq, getElem?_keyErase] at hgone
      split at hgone
      · cases hgone
      split at hgone
      · rename_i hold'
        exact hold'.symm
      · rw [hkept] at hgone
        cases hgone
    have htoken := honly token grant h
    subst htoken
    rw [h.1] at hold
    cases hold
    exact ⟨honly, hwhy⟩

/-- Along every run in which no two tokens are the same: a token is taken
once at most, for the transfer and by the device it was issued for, before
it expires; the table keeps its bounds; and the next accept gives up one
token at most, the device's own first to expire when it has its limit, and
else, in a full table, the first to expire of them all. -/
theorem lane_tokens (ops : List GrantOp) (hdrawn : (ops.filterMap GrantOp.drawn).Nodup) :
    (∀ first token transferId diallerId now rest,
      ops = first ++ GrantOp.redeem token transferId diallerId now :: rest →
      ((grantsAfter first).redeem token transferId diallerId now).1 = .ok () →
      (∃ before walk random issued middle,
        first = before ++ GrantOp.issue walk random transferId diallerId issued :: middle ∧
          newToken random = token ∧ now < issued + tokenTtl) ∧
      ∀ middle transferId' diallerId' now' last,
        rest = middle ++ GrantOp.redeem token transferId' diallerId' now' :: last →
        ((grantsAfter (first ++ GrantOp.redeem token transferId diallerId now :: middle)).redeem token
          transferId' diallerId' now').1 ≠ .ok ()) ∧
    (grantsAfter ops).Bounded ∧
    ∀ walk random transferId diallerId now token grant,
      Evicted (grantsAfter ops) (.issue walk random transferId diallerId now) transferId now
        token grant →
      (∀ token' grant', Evicted (grantsAfter ops) (.issue walk random transferId diallerId now)
        transferId now token' grant' → token' = token) ∧
      ((held ((grantsAfter ops).kept transferId now) diallerId = maxGrantsPerDevice ∧
          grant.diallerId = diallerId ∧
          ∀ (k : String) (other : Grant),
            ((grantsAfter ops).kept transferId now)[k]? = some other →
            other.diallerId = diallerId → grant.expires ≤ other.expires) ∨
        (held ((grantsAfter ops).kept transferId now) diallerId < maxGrantsPerDevice ∧
          ((grantsAfter ops).kept transferId now).size = maxGrants ∧
          ∀ (k : String) (other : Grant),
            ((grantsAfter ops).kept transferId now)[k]? = some other →
            grant.expires ≤ other.expires)) := by
  have hbounded := grantsAfter_bounded ops
  refine ⟨?_, hbounded, ?_⟩
  · rintro first token transferId diallerId now rest rfl hok
    exact redeemed_once hdrawn hok
  · intro walk random transferId diallerId now token grant hevicted
    obtain ⟨honly, hwhy⟩ := evicted_oldest hevicted
    have hkept : Bounded ⟨(grantsAfter ops).kept transferId now⟩ := hbounded.filter _
    refine ⟨honly, hwhy.imp ?_ ?_⟩
    · rintro ⟨hlimit, hown⟩
      exact ⟨Nat.le_antisymm (hkept.device diallerId) hlimit, hown⟩
    · rintro ⟨hbelow, hfull, hfirst⟩
      exact ⟨hbelow, Nat.le_antisymm hkept.total hfull, hfirst⟩

/-- Two tokens of two devices: one is taken, and the other is refused to
the wrong device. -/
theorem lane_tokens_two :
    let ops := [GrantOp.issue Walk.byToken (Vector.replicate 16 1) "photo" "phone" 0,
      .issue Walk.byToken (Vector.replicate 16 2) "film" "tablet" 1,
      .redeem (newToken (Vector.replicate 16 1)) "photo" "phone" 2,
      .redeem (newToken (Vector.replicate 16 2)) "film" "phone" 3]
    (grantsAfter ops).Bounded ∧ (grantsAfter ops).byToken.size = 0 :=
  ⟨(lane_tokens _ (by decide)).2.1, by decide +kernel⟩

/-! ### A crowded table -/

/-- The only first to expire of a full table goes. -/
theorem makeRoom_first {table : KeyMap Grant} (walk : Walk)
    (hbelow : held table diallerId < maxGrantsPerDevice) (hfull : maxGrants ≤ table.size)
    (htoken : table[token]? = some grant)
    (hfirst : ∀ (k : String) (other : Grant), table[k]? = some other →
      other.expires ≤ grant.expires → k = token) :
    makeRoom walk table diallerId = table.erase token := by
  rcases makeRoom_cases walk table diallerId with ⟨-, hroom, -⟩ | ⟨old, oldGrant, heq, hold, hwhy⟩
  · omega
  · rcases hwhy with ⟨hlimit, -⟩ | ⟨-, -, hmin⟩
    · omega
    · rw [heq, hfirst old oldGrant hold (hmin token grant htoken)]

/-- The bytes of the `i`-th token. -/
def bytesOf (i : Nat) : Vector UInt8 16 :=
  Vector.ofFn (fun place => if place = 0 then UInt8.ofNat (i / 256) else UInt8.ofNat i)

theorem bytesOf_inj (hi : i < 65536) (hj : j < 65536) (h : bytesOf i = bytesOf j) : i = j := by
  have hhigh := congrArg (fun v : Vector UInt8 16 => v[0].toNat) h
  have hlow := congrArg (fun v : Vector UInt8 16 => v[1].toNat) h
  simp [bytesOf] at hhigh hlow
  omega

def tokenOf (i : Nat) : String := newToken (bytesOf i)

theorem tokenOf_inj (hi : i < 65536) (hj : j < 65536) (h : tokenOf i = tokenOf j) :
    i = j := bytesOf_inj hi hj (newToken_inj h)

/-- The `i`-th name, of a transfer or a device. -/
def nameOf (i : Nat) : String := toString (i : Int)

theorem nameOf_inj (h : nameOf i = nameOf j) : i = j := by
  have := Lib.toString_int_inj h
  omega

/-- Device `device` accepts transfer `i` at `i`. -/
def accepts (device i : Nat) : GrantOp :=
  .issue Walk.byToken (bytesOf i) (nameOf i) (nameOf device) i

def grantOf (device i : Nat) : Grant := ⟨nameOf i, nameOf device, i + tokenTtl⟩

/-- One token for each of `count` devices. -/
def crowd (count : Nat) : List GrantOp := (List.range count).map (fun i => accepts i i)

theorem crowd_drawn (count : Nat) :
    (crowd count).filterMap GrantOp.drawn = (List.range count).map bytesOf := by
  rw [crowd, List.filterMap_map]
  exact congrFun (List.filterMap_eq_map (f := bytesOf)) _

def crowded : Nat → KeyMap Grant
  | 0 => ∅
  | count + 1 => (crowded count).insert (tokenOf count) (grantOf count count)

theorem crowded_cases {k : String} (h : (crowded count)[k]? = some grant) :
    ∃ i < count, k = tokenOf i ∧ grant = grantOf i i := by
  induction count with
  | zero => simp [crowded] at h
  | succ count ih =>
    rw [crowded, getElem?_keyInsert] at h
    split at h
    · rename_i hk
      cases h
      exact ⟨count, Nat.lt_succ_self _, hk.symm, rfl⟩
    · obtain ⟨i, hi, hrest⟩ := ih h
      exact ⟨i, by omega, hrest⟩

theorem crowded_get (hi : i < count) (hcount : count ≤ maxGrants) :
    (crowded count)[tokenOf i]? = some (grantOf i i) := by
  have hmax : maxGrants = 256 := rfl
  induction count with
  | zero => omega
  | succ count ih =>
    rw [crowded, getElem?_keyInsert]
    by_cases heq : tokenOf count = tokenOf i
    · rw [if_pos heq, tokenOf_inj (by omega) (by omega) heq]
    · rw [if_neg heq]
      have hne : i ≠ count := fun h => heq (h ▸ rfl)
      exact ih (by omega) (by omega)

theorem crowded_fresh (hcount : count ≤ maxGrants) (hj : count ≤ j) (hlt : j < 65536) :
    (crowded count)[tokenOf j]? = none := by
  have hmax : maxGrants = 256 := rfl
  cases hget : (crowded count)[tokenOf j]? with
  | none => rfl
  | some grant =>
    obtain ⟨i, hi, hk, -⟩ := crowded_cases hget
    have := tokenOf_inj hlt (by omega) hk
    omega

theorem crowded_size (hcount : count ≤ maxGrants) : (crowded count).size = count := by
  induction count with
  | zero => rfl
  | succ count ih =>
    have hfresh := @crowded_fresh count count (by omega) le_rfl (by
      have hmax : maxGrants = 256 := rfl
      omega)
    rw [crowded, size_insert_of_none hfresh, ih (by omega)]

/-- A table of which nothing expires, and nothing is of this transfer, is
kept. -/
theorem kept_eq_self (h : ∀ (k : String) (grant : Grant), g.byToken[k]? = some grant →
      now < grant.expires ∧ grant.transferId ≠ transferId) : g.kept transferId now = g.byToken := by
  apply Std.ExtTreeMap.ext_getElem?
  intro a
  unfold kept
  rw [getElem?_keyFilter]
  cases hget : g.byToken[a]? with
  | none => rfl
  | some grant =>
    obtain ⟨hlive, hother⟩ := h a grant hget
    simp [hlive, hother]

/-- The first of the crowd have not expired when the next one comes. -/
theorem crowded_kept (hcount : count ≤ maxGrants) :
    kept ⟨crowded count⟩ (nameOf count) count = crowded count := by
  have hmax : maxGrants = 256 := rfl
  have httl : tokenTtl = 60000000000 := rfl
  apply kept_eq_self
  intro k grant hget
  obtain ⟨i, hi, -, rfl⟩ := crowded_cases hget
  refine ⟨?_, fun h => ?_⟩
  · show count < i + tokenTtl
    omega
  · have := nameOf_inj h
    omega

/-- The next one has no token. -/
theorem crowded_held (count : Nat) : held (crowded count) (nameOf count) = 0 := by
  apply countWhere_eq_zero
  intro k grant hget
  obtain ⟨i, hi, -, rfl⟩ := crowded_cases hget
  refine beq_eq_false_iff_ne.mpr (fun h => ?_)
  have := nameOf_inj h
  omega

theorem crowded_held_last (count : Nat) : held (crowded (count + 1)) (nameOf count) ≤ 1 := by
  have hle : held (crowded (count + 1)) (nameOf count) ≤ held (crowded count) (nameOf count) + 1 :=
    countWhere_insert_le
  rwa [crowded_held] at hle

theorem crowd_table (hcount : count ≤ maxGrants) : grantsAfter (crowd count) = ⟨crowded count⟩ := by
  induction count with
  | zero => rfl
  | succ count ih =>
    have hrun : grantsAfter (crowd (count + 1)) = (accepts count count).run ⟨crowded count⟩ := by
      rw [← ih (by omega), crowd, List.range_succ, List.map_append]
      exact grantsAfter_append (crowd count) (accepts count count)
    have hroom : makeRoom Walk.byToken (crowded count) (nameOf count) = crowded count := by
      unfold makeRoom
      rw [crowded_held, crowded_size (by omega), if_neg]
      have hlimit : maxGrantsPerDevice = 16 := rfl
      omega
    rw [hrun]
    show (⟨(makeRoom Walk.byToken (kept ⟨crowded count⟩ (nameOf count) count)
      (nameOf count)).insert _ _⟩ : Grants) = _
    rw [crowded_kept (by omega), hroom]
    rfl

/-- A full table of one token for each device, and the last of them asks for
another. It takes the place of the first device's token, which had not
expired, while the last one has its own. -/
theorem flood_takes_another :
    let ops := crowd maxGrants
    let flood := accepts (maxGrants - 1) maxGrants
    ((ops ++ [flood]).filterMap GrantOp.drawn).Nodup ∧
      Evicted (grantsAfter ops) flood (nameOf maxGrants) maxGrants (tokenOf 0) (grantOf 0 0) ∧
      nameOf 0 ≠ nameOf (maxGrants - 1) ∧
      (grantsAfter ops).byToken[tokenOf (maxGrants - 1)]?
        = some (grantOf (maxGrants - 1) (maxGrants - 1)) ∧
      (grantsAfter (ops ++ [flood])).byToken[tokenOf (maxGrants - 1)]?
        = some (grantOf (maxGrants - 1) (maxGrants - 1)) := by
  have hmax : maxGrants = 256 := rfl
  intro ops flood
  have hkept : (grantsAfter ops).kept (nameOf maxGrants) maxGrants = crowded maxGrants := by
    rw [crowd_table le_rfl]
    exact crowded_kept le_rfl
  have hcount : maxGrants - 1 + 1 = maxGrants := rfl
  have hheld := crowded_held_last (maxGrants - 1)
  rw [hcount] at hheld
  have hroom : makeRoom Walk.byToken (crowded maxGrants) (nameOf (maxGrants - 1))
      = (crowded maxGrants).erase (tokenOf 0) := by
    apply makeRoom_first
    · exact hheld.trans_lt (by decide)
    · rw [crowded_size le_rfl]
    · exact crowded_get (by decide) le_rfl
    · intro k other hget hle
      obtain ⟨i, hi, rfl, rfl⟩ := crowded_cases hget
      have hzero : i + tokenTtl ≤ 0 + tokenTtl := hle
      rw [show i = 0 by omega]
  have hafter : (flood.run (grantsAfter ops)).byToken = ((crowded maxGrants).erase (tokenOf 0)).insert
      (tokenOf maxGrants) ⟨nameOf maxGrants, nameOf (maxGrants - 1), maxGrants + tokenTtl⟩ := by
    show (makeRoom Walk.byToken ((grantsAfter ops).kept (nameOf maxGrants) maxGrants)
      (nameOf (maxGrants - 1))).insert _ _ = _
    rw [hkept, hroom]
    rfl
  have htokens : ∀ i j, i ≤ maxGrants → j < i → tokenOf i ≠ tokenOf j := fun i j hi hj h => by
    have := tokenOf_inj (by omega) (by omega) h
    omega
  have hlast : (crowded maxGrants)[tokenOf (maxGrants - 1)]?
      = some (grantOf (maxGrants - 1) (maxGrants - 1)) := crowded_get (by decide) le_rfl
  refine ⟨?_, ⟨?_, ?_⟩, ?_, ?_, ?_⟩
  · have hdrawn : (ops ++ [flood]).filterMap GrantOp.drawn
        = (List.range (maxGrants + 1)).map bytesOf := by
      rw [List.range_succ, List.map_append, List.filterMap_append, crowd_drawn]
      rfl
    rw [hdrawn]
    refine List.Nodup.map_on (fun i hi j hj h => ?_) List.nodup_range
    rw [List.mem_range] at hi hj
    exact bytesOf_inj (by omega) (by omega) h
  · rw [hkept]
    exact crowded_get (by decide) le_rfl
  · rw [hafter, getElem?_keyInsert, if_neg (htokens _ _ le_rfl (by omega)), getElem?_keyErase,
      if_pos rfl]
  · intro h
    have := nameOf_inj h
    omega
  · rw [crowd_table le_rfl]
    exact hlast
  · have hfirst : tokenOf 0 ≠ tokenOf (maxGrants - 1) :=
      (htokens (maxGrants - 1) 0 (by omega) (by omega)).symm
    rw [grantsAfter_append, hafter, getElem?_keyInsert, if_neg (htokens _ _ le_rfl (by omega)),
      getElem?_keyErase, if_neg hfirst]
    exact hlast

end DeskLink.Lane
