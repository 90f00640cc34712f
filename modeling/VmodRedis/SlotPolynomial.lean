import VmodRedis.HashTags
import VmodRedis.Lib.Crc

namespace VmodRedis.SlotPolynomial

open CStrings Database Slots Crc Polynomial

def table (i : ℕ) : BitVec 16 := .ofNat 16 crc16tab[i]!

def feedback : BitVec 16 := 0x1021

theorem tabulates : Tabulates feedback table := by
  have hall : ∀ i < 256, table i = (step feedback)^[8] (BitVec.ofNat 16 i <<< 8) := by decide +kernel
  exact hall

theorem generator_feedback : generator feedback = X ^ 16 + X ^ 12 + X ^ 5 + 1 := by
  have hbits : ∀ i < 16, coefficient feedback i = if i = 12 ∨ i = 5 ∨ i = 0 then 1 else 0 := by decide
  have hpoly : poly feedback = X ^ 12 + X ^ 5 + 1 := by
    rw [poly, Finset.sum_congr rfl fun i hi => by rw [hbits i (Finset.mem_range.mp hi)]]
    simp [Finset.sum_range_succ]
    ring
  rw [generator, hpoly]
  ring

theorem crc16_eq (buf : Bytes) : crc16 buf = (buf.foldl (Crc.update table) 0).toNat := by
  induction buf using List.reverseRecOn with
  | nil => rfl
  | append_singleton buf c ih =>
    obtain ⟨crc, hcrc⟩ : ∃ crc, crc = buf.foldl (Crc.update table) 0 := ⟨_, rfl⟩
    have hhigh : crc.toNat >>> 8 < 2 ^ 8 := by
      rw [Nat.shiftRight_eq_div_pow]
      have := crc.isLt
      omega
    have hindex : ((crc.toNat >>> 8) ^^^ c.toNat) &&& 0xff = (crc.toNat >>> 8) ^^^ c.toNat :=
      Nat.and_two_pow_sub_one_of_lt_two_pow (n := 8) (Nat.xor_lt_two_pow hhigh c.toNat_lt)
    rw [crc16] at ih ⊢
    rw [List.foldl_append, List.foldl_append, ih, ← hcrc]
    simp only [List.foldl_cons, List.foldl_nil]
    rw [hindex, Crc.update, BitVec.toNat_xor, BitVec.toNat_shiftLeft, BitVec.toNat_ushiftRight, table, BitVec.toNat_ofNat,
      Nat.xor_mod_two_pow]

theorem crc16_testBit {i : ℕ} (hi : i < 16) (buf : Bytes) :
    (crc16 buf).testBit i = decide (((X ^ 16 * message buf) %ₘ (X ^ 16 + X ^ 12 + X ^ 5 + 1)).coeff i = 1) := by
  have hremainder : poly (buf.foldl (Crc.update table) 0) = (X ^ 16 * message buf) %ₘ (X ^ 16 + X ^ 12 + X ^ 5 + 1) := by
    rw [← generator_feedback]
    exact poly_updates (by decide) tabulates buf
  rw [← hremainder, coeff_poly hi, crc16_eq, BitVec.testBit_toNat, coefficient]
  cases (buf.foldl (Crc.update table) 0).getLsbD i <;> rfl

/-- The slot of a key is read off the remainder of what is hashed of it, divided by X^16 + X^12 + X^5 + 1. -/
theorem getClusterSlot_remainder {key : Bytes} (h : (cstr key).length < 2 ^ 31) :
    getClusterSlot key < 2 ^ 14 ∧ ∀ i < 14, (getClusterSlot key).testBit i =
      decide (((X ^ 16 * message (hashed key)) %ₘ (X ^ 16 + X ^ 12 + X ^ 5 + 1)).coeff i = 1) := by
  refine ⟨getClusterSlot_lt key, fun i hi => ?_⟩
  have hslots : nredisClusterSlots = 2 ^ 14 := rfl
  rw [getClusterSlot_eq h, hslots, Nat.testBit_mod_two_pow, decide_eq_true hi, Bool.true_and,
    crc16_testBit (by omega)]

theorem getClusterSlot_remainder_tagged : getClusterSlot (bytes "x{user}") < 2 ^ 14 ∧ ∀ i < 14,
    (getClusterSlot (bytes "x{user}")).testBit i = decide (((X ^ 16 * message (hashed (bytes "x{user}"))) %ₘ
      (X ^ 16 + X ^ 12 + X ^ 5 + 1)).coeff i = 1) :=
  getClusterSlot_remainder (by decide)

end VmodRedis.SlotPolynomial
