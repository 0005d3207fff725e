import Mathlib.Algebra.Order.Ring.Nat
import Mathlib.Data.Nat.Basic

/-!
# Base-128 numbers

A varint has seven bits of the number in each byte, the lowest first, and the
high bit set in every byte but the last. Readers and writers work on 64-bit
words; the lemmas tell what their operations do to the number.
-/

namespace Protocomm.Misc

/-- The bytes are a varint of the number, not necessarily the shortest one. -/
inductive IsVarint : List UInt8 → Nat → Prop
  | last {b : UInt8} (hb : b.toNat < 128) : IsVarint [b] b.toNat
  | more {b : UInt8} {bs : List UInt8} {n : Nat} (hb : 128 ≤ b.toNat) (hrest : IsVarint bs n) :
      IsVarint (b :: bs) (b.toNat % 128 + 128 * n)

theorem IsVarint.length_pos {bs : List UInt8} {n : Nat} (h : IsVarint bs n) : 0 < bs.length := by
  cases h <;> simp

theorem toNat_and_127 (b : UInt8) : (b &&& 0x7F).toNat = b.toNat % 128 := by
  rw [UInt8.toNat_and]
  exact Nat.and_two_pow_sub_one_eq_mod b.toNat 7

theorem toNat_toUInt8_or_128 (v : UInt64) : (v.toUInt8 ||| 0x80).toNat = v.toNat % 128 + 128 := by
  have hall : ∀ n : Fin 256, n.val ||| 128 = n.val % 128 + 128 := by decide +kernel
  rw [UInt8.toNat_or, UInt64.toNat_toUInt8]
  have hbyte := hall ⟨v.toNat % 256, Nat.mod_lt _ (by decide)⟩
  simp only at hbyte
  rw [show (0x80 : UInt8).toNat = 128 from rfl, hbyte]
  omega

theorem toNat_shiftRight_7 (v : UInt64) : (v >>> 7).toNat = v.toNat / 128 := by
  rw [UInt64.toNat_shiftRight]
  exact Nat.shiftRight_eq_div_pow v.toNat 7

/-- A group at bit `s` goes beside the bits below `s`; bits from 64 on are lost. -/
theorem toNat_or_shiftLeft {v : UInt64} {b : UInt8} {s : Nat} (hs : s < 64)
    (hv : v.toNat < 2 ^ s) :
    (v ||| ((b &&& 0x7F).toUInt64 <<< UInt64.ofNat s)).toNat =
      (v.toNat + 2 ^ s * (b.toNat % 128)) % 2 ^ 64 := by
  have hword : (2 : Nat) ^ 64 = 2 ^ s * 2 ^ (64 - s) := by
    rw [← Nat.pow_add, Nat.add_sub_cancel' (by omega)]
  have hshift : (UInt64.ofNat s).toNat % 64 = s := by
    rw [UInt64.toNat_ofNat']
    omega
  have hgroup : ((b &&& 0x7F).toUInt64 <<< UInt64.ofNat s).toNat =
      2 ^ s * (b.toNat % 128 % 2 ^ (64 - s)) := by
    rw [UInt64.toNat_shiftLeft, hshift, UInt8.toNat_toUInt64, toNat_and_127, Nat.shiftLeft_eq,
      Nat.mul_comm, hword, Nat.mul_mod_mul_left]
  rw [UInt64.toNat_or, hgroup, Nat.or_comm, ← Nat.two_pow_add_eq_or_of_lt hv, hword, Nat.mod_mul,
    Nat.add_mul_mod_self_left, Nat.mod_eq_of_lt hv, Nat.add_mul_div_left _ _ (Nat.two_pow_pos s),
    Nat.div_eq_of_lt hv, Nat.zero_add, Nat.add_comm]

end Protocomm.Misc
