import DeskLink.Lib.Digits
import DeskLink.Lib.Text
import DeskLink.Relay.Limits

/-!
# `DeskLink.Proofs.Relay.Networks`: the keys of an address

An address is counted under the keys that it is under (`mem_tiers_ofIp`):
its own IPv4 address, or its /64 and its /48. No two keys are written alike
(`display_inj`).
-/

set_option autoImplicit false

namespace DeskLink.Relay

open Lib

/-! ### Addresses and their tiers -/

/-- The addresses under a key: one IPv4 address, a /64 or a /48. -/
def IpAddr.under (ip : IpAddr) : NetKey → Bool
  | .v4 octets => ip.toCanonical == .v4 octets
  | .v6Prefix net =>
    match ip.toCanonical with
    | .v4 _ => false
    | .v6 bits => bits.toNat / 2 ^ 64 == net.toNat
  | .v6Wide net =>
    match ip.toCanonical with
    | .v4 _ => false
    | .v6 bits => bits.toNat / 2 ^ 80 == net.toNat

theorem prefix_toNat (bits : BitVec 128) :
    ((bits >>> 64).setWidth 64).toNat = bits.toNat / 2 ^ 64 := by
  have hlt := bits.isLt
  rw [BitVec.toNat_setWidth, BitVec.toNat_ushiftRight, Nat.shiftRight_eq_div_pow]
  omega

/-- An address is counted under the keys that it is under. -/
theorem mem_tiers_ofIp (ip : IpAddr) (key : NetKey) :
    key ∈ (NetKey.ofIp ip).tiers ↔ ip.under key = true := by
  unfold NetKey.ofIp IpAddr.under
  cases ip.toCanonical with
  | v4 octets =>
    cases key with
    | v4 octets' =>
      simp only [NetKey.tiers, List.mem_singleton, NetKey.v4.injEq, beq_iff_eq, IpAddr.v4.injEq]
      exact eq_comm
    | v6Prefix net => simp [NetKey.tiers]
    | v6Wide net => simp [NetKey.tiers]
  | v6 bits =>
    have hprefix := prefix_toNat bits
    cases key with
    | v4 octets => simp [NetKey.tiers]
    | v6Prefix net =>
      simp only [NetKey.tiers, List.mem_cons, NetKey.v6Prefix.injEq, List.not_mem_nil, or_false,
        beq_iff_eq, reduceCtorEq]
      rw [← hprefix, eq_comm, BitVec.toNat_inj]
    | v6Wide net =>
      simp only [NetKey.tiers, List.mem_cons, NetKey.v6Wide.injEq, List.not_mem_nil, or_false,
        beq_iff_eq, reduceCtorEq, false_or]
      rw [eq_comm, ← BitVec.toNat_inj, BitVec.toNat_ushiftRight, hprefix,
        Nat.shiftRight_eq_div_pow, Nat.div_div_eq_div_mul, ← pow_add]

theorem nodup_tiers (key : NetKey) : key.tiers.Nodup := by
  cases key <;> simp [NetKey.tiers]

/-! ### How a network is written -/

theorem not_mem_toDigits {c : Char} (hc : c.isDigit = false) (n : Nat) :
    c ∉ Nat.toDigits 10 n := by
  intro hmem
  have hdigit := Nat.isDigit_of_mem_toDigits (by decide) (by decide) hmem
  simp [hc] at hdigit

theorem colon_not_mem_v4 (octets : Ipv4Addr) : ':' ∉ (NetKey.v4 octets).display := by
  simp [NetKey.display, not_mem_toDigits]

/-- A network is known from how it is written. -/
theorem display_inj {key key' : NetKey} (h : key.display = key'.display) : key = key' := by
  cases key with
  | v4 octets =>
    cases key' with
    | v4 octets' =>
      have hdot : ∀ n, '.' ∉ Nat.toDigits 10 n := not_mem_toDigits (by decide)
      obtain ⟨h0, h⟩ := append_cons_inj_first (hdot _) (hdot _) h
      obtain ⟨h1, h⟩ := append_cons_inj_first (hdot _) (hdot _) h
      obtain ⟨h2, h3⟩ := append_cons_inj_first (hdot _) (hdot _) h
      have e0 := UInt8.toNat_inj.mp (toDigits_inj h0)
      have e1 := UInt8.toNat_inj.mp (toDigits_inj h1)
      have e2 := UInt8.toNat_inj.mp (toDigits_inj h2)
      have e3 := UInt8.toNat_inj.mp (toDigits_inj h3)
      congr 1
      ext i hi
      interval_cases i
      · exact congrArg UInt8.toNat e0
      · exact congrArg UInt8.toNat e1
      · exact congrArg UInt8.toNat e2
      · exact congrArg UInt8.toNat e3
    | v6Prefix net =>
      have hnone := colon_not_mem_v4 octets
      rw [h] at hnone
      simp [NetKey.display] at hnone
    | v6Wide net =>
      have hnone := colon_not_mem_v4 octets
      rw [h] at hnone
      simp [NetKey.display] at hnone
  | v6Prefix net =>
    cases key' with
    | v4 octets' =>
      have hnone := colon_not_mem_v4 octets'
      rw [← h] at hnone
      simp [NetKey.display] at hnone
    | v6Prefix net' =>
      have hdigits := (List.append_inj' h rfl).1
      have hnat := padded_inj (by decide) (by decide) hdigits
      rw [BitVec.eq_of_toNat_eq hnat]
    | v6Wide net' =>
      have hsuffix := (List.append_inj' h rfl).2
      exact absurd hsuffix (by decide)
  | v6Wide net =>
    cases key' with
    | v4 octets' =>
      have hnone := colon_not_mem_v4 octets'
      rw [← h] at hnone
      simp [NetKey.display] at hnone
    | v6Prefix net' =>
      have hsuffix := (List.append_inj' h rfl).2
      exact absurd hsuffix (by decide)
    | v6Wide net' =>
      have hdigits := (List.append_inj' h rfl).1
      have hnat := padded_inj (by decide) (by decide) hdigits
      rw [BitVec.eq_of_toNat_eq hnat]

end DeskLink.Relay
