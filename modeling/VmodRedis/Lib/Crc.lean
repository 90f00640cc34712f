import Mathlib.Algebra.CharP.Two
import Mathlib.Algebra.Field.ZMod
import Mathlib.RingTheory.AdjoinRoot

/-!
Cyclic redundancy checks: the register of a check is the remainder of a polynomial over the field with two elements,
and a table for the bytes computes the same.
-/

namespace VmodRedis.Crc

open Polynomial

variable {w : ℕ} {g x y : BitVec w}

def coefficient (x : BitVec w) (i : ℕ) : ZMod 2 := if x.getLsbD i then 1 else 0

noncomputable def poly (x : BitVec w) : (ZMod 2)[X] := ∑ i ∈ Finset.range w, C (coefficient x i) * X ^ i

/-- A word stands for the generator without its leading term. -/
noncomputable def generator (g : BitVec w) : (ZMod 2)[X] := X ^ w + poly g

noncomputable def message (bytes : List UInt8) : (ZMod 2)[X] :=
  bytes.foldl (fun p c => X ^ 8 * p + poly c.toBitVec) 0

def step (g x : BitVec w) : BitVec w := (x <<< 1) ^^^ (if x.msb then g else 0)

/-- What the table of a check holds: the register after eight bits. -/
def Tabulates (g : BitVec w) (table : ℕ → BitVec w) : Prop :=
  ∀ i < 256, table i = (step g)^[8] (BitVec.ofNat w i <<< (w - 8))

def update (table : ℕ → BitVec w) (crc : BitVec w) (c : UInt8) : BitVec w :=
  (crc <<< 8) ^^^ table ((crc >>> (w - 8)).toNat ^^^ c.toNat)

theorem degree_poly_lt (x : BitVec w) : (poly x).degree < w := by
  rw [poly, Finset.sum_range]
  exact degree_sum_fin_lt _

theorem coeff_poly {i : ℕ} (h : i < w) (x : BitVec w) : (poly x).coeff i = coefficient x i := by
  rw [poly, finsetSum_coeff, Finset.sum_eq_single i]
  · rw [coeff_C_mul_X_pow, if_pos rfl]
  · intro j _ hj
    rw [coeff_C_mul_X_pow, if_neg hj.symm]
  · intro hi
    exact absurd (Finset.mem_range.mpr h) hi

theorem generator_monic (g : BitVec w) : (generator g).Monic := monic_X_pow_add (degree_poly_lt g)

theorem generator_degree (g : BitVec w) : (generator g).degree = w := by
  rw [generator, degree_add_eq_left_of_degree_lt (by rw [degree_X_pow]; exact degree_poly_lt g), degree_X_pow]

theorem coefficient_xor (x y : BitVec w) (i : ℕ) : coefficient (x ^^^ y) i = coefficient x i + coefficient y i := by
  unfold coefficient
  rw [BitVec.getLsbD_xor]
  cases x.getLsbD i <;> cases y.getLsbD i <;> rfl

theorem poly_xor (x y : BitVec w) : poly (x ^^^ y) = poly x + poly y := by
  simp only [poly, coefficient_xor, C_add, add_mul, Finset.sum_add_distrib]

theorem coefficient_of_le {i : ℕ} (h : w ≤ i) (x : BitVec w) : coefficient x i = 0 := by
  rw [coefficient, BitVec.getLsbD_of_ge x i h]
  rfl

theorem poly_eq_sum (x : BitVec w) {k n : ℕ} (h : w = k + n) :
    poly x = ∑ i ∈ Finset.range k, C (coefficient x i) * X ^ i +
      ∑ i ∈ Finset.range n, C (coefficient x (k + i)) * X ^ (k + i) := by
  rw [← Finset.sum_range_add (fun i => C (coefficient x i) * X ^ i) k n, ← h, poly]

theorem poly_shiftLeft {n : ℕ} (hn : n ≤ w) (x : BitVec w) :
    X ^ n * poly x = poly (x <<< n) + X ^ w * poly (x >>> (w - n)) := by
  have hlow : ∑ i ∈ Finset.range n, C (coefficient (x <<< n) i) * X ^ i = 0 := by
    refine Finset.sum_eq_zero fun i hi => ?_
    have hlt := Finset.mem_range.mp hi
    rw [coefficient, BitVec.getLsbD_shiftLeft]
    simp [hlt]
  have hshifted : ∀ i ∈ Finset.range (w - n), C (coefficient (x <<< n) (n + i)) * X ^ (n + i) =
      X ^ n * (C (coefficient x i) * X ^ i) := by
    intro i hi
    have hlt := Finset.mem_range.mp hi
    have hbit : coefficient (x <<< n) (n + i) = coefficient x i := by
      rw [coefficient, coefficient, BitVec.getLsbD_shiftLeft, Nat.add_sub_cancel_left]
      simp [show n + i < w by omega]
    rw [hbit, pow_add, mul_left_comm]
  have hright : ∀ i, coefficient (x >>> (w - n)) i = coefficient x (w - n + i) := fun i => by
    rw [coefficient, coefficient, BitVec.getLsbD_ushiftRight]
  have hhigh : ∑ i ∈ Finset.range (w - n), C (coefficient x (w - n + (n + i))) * X ^ (n + i) = 0 := by
    refine Finset.sum_eq_zero fun i _ => ?_
    rw [coefficient_of_le (by omega), C_0, zero_mul]
  have hmoved : ∀ i ∈ Finset.range n, X ^ n * (C (coefficient x (w - n + i)) * X ^ (w - n + i)) =
      X ^ w * (C (coefficient x (w - n + i)) * X ^ i) := by
    intro i _
    rw [mul_left_comm, mul_left_comm (X ^ w), ← pow_add, ← pow_add]
    congr 2
    omega
  rw [poly_eq_sum (x <<< n) (Nat.add_sub_cancel' hn).symm, poly_eq_sum (x >>> (w - n)) (Nat.add_sub_cancel' hn).symm,
    poly_eq_sum x (Nat.sub_add_cancel hn).symm, hlow, zero_add]
  simp only [hright]
  rw [hhigh, add_zero, mul_add, Finset.mul_sum, Finset.mul_sum, Finset.mul_sum, Finset.sum_congr rfl hshifted,
    Finset.sum_congr rfl hmoved]

theorem poly_zero : poly (0 : BitVec w) = 0 := by
  refine Finset.sum_eq_zero fun i _ => ?_
  have hbit : (0 : BitVec w).getLsbD i = false := BitVec.getLsbD_zero
  rw [coefficient, hbit, if_neg Bool.false_ne_true, C_0, zero_mul]

theorem coefficient_eq_zero {i n : ℕ} (hx : x.toNat < 2 ^ n) (h : n ≤ i) : coefficient x i = 0 := by
  have hbit : x.getLsbD i = false := by
    rw [← BitVec.testBit_toNat]
    exact Nat.testBit_lt_two_pow (lt_of_lt_of_le hx (Nat.pow_le_pow_right (by decide) h))
  rw [coefficient, hbit]
  rfl

theorem poly_of_lt {n : ℕ} (hn : n ≤ w) (hx : x.toNat < 2 ^ n) :
    poly x = ∑ i ∈ Finset.range n, C (coefficient x i) * X ^ i := by
  have hzero : ∑ i ∈ Finset.range (w - n), C (coefficient x (n + i)) * X ^ (n + i) = 0 := by
    refine Finset.sum_eq_zero fun i _ => ?_
    rw [coefficient_eq_zero hx (by omega), C_0, zero_mul]
  rw [poly_eq_sum x (Nat.add_sub_cancel' hn).symm, hzero, add_zero]

theorem poly_shiftLeft_of_lt {n : ℕ} (hn : n ≤ w) (hx : x.toNat < 2 ^ (w - n)) :
    poly (x <<< n) = X ^ n * poly x := by
  have hzero : x >>> (w - n) = 0 := by
    apply BitVec.eq_of_toNat_eq
    rw [BitVec.toNat_ushiftRight, Nat.shiftRight_eq_div_pow, Nat.div_eq_of_lt hx]
    rfl
  rw [poly_shiftLeft hn x, hzero, poly_zero, mul_zero, add_zero]

theorem poly_msb (hw : 0 < w) (x : BitVec w) : poly (x >>> (w - 1)) = if x.msb then 1 else 0 := by
  have hlt : (x >>> (w - 1)).toNat < 2 ^ 1 := by
    rw [BitVec.toNat_ushiftRight, Nat.shiftRight_eq_div_pow]
    refine Nat.div_lt_of_lt_mul ?_
    rw [← Nat.pow_add, Nat.sub_add_cancel hw]
    exact x.isLt
  rw [poly_of_lt hw hlt, Finset.sum_range_one, pow_zero, mul_one, coefficient, BitVec.getLsbD_ushiftRight,
    BitVec.msb_eq_getLsbD_last, Nat.add_zero]
  split_ifs
  · exact C_1
  · exact C_0

theorem mk_leading (g : BitVec w) : AdjoinRoot.mk (generator g) (X ^ w) = AdjoinRoot.mk (generator g) (poly g) := by
  have hsplit : (X : (ZMod 2)[X]) ^ w = generator g + poly g := by
    rw [generator, add_assoc, CharTwo.add_self_eq_zero, add_zero]
  conv_lhs => rw [hsplit]
  rw [map_add, AdjoinRoot.mk_self, zero_add]

theorem mk_step (hw : 0 < w) (g x : BitVec w) :
    AdjoinRoot.mk (generator g) (poly (step g x)) = AdjoinRoot.mk (generator g) (X * poly x) := by
  have hshift := poly_shiftLeft hw x
  rw [pow_one, poly_msb hw] at hshift
  rw [hshift, step, poly_xor, map_add, map_add, map_mul, mk_leading, ← map_mul]
  congr 2
  split_ifs
  · rw [mul_one]
  · rw [mul_zero, poly_zero]

theorem mk_steps (hw : 0 < w) (g x : BitVec w) (n : ℕ) :
    AdjoinRoot.mk (generator g) (poly ((step g)^[n] x)) = AdjoinRoot.mk (generator g) (X ^ n * poly x) := by
  induction n with
  | zero => rw [Function.iterate_zero_apply, pow_zero, one_mul]
  | succ n ih =>
    rw [Function.iterate_succ_apply', mk_step hw, map_mul, ih, ← map_mul, pow_succ']
    ring_nf

theorem mk_update (hw : 8 ≤ w) {table : ℕ → BitVec w} (ht : Tabulates g table) (crc : BitVec w) (c : UInt8) :
    AdjoinRoot.mk (generator g) (poly (update table crc c)) =
      AdjoinRoot.mk (generator g) (X ^ 8 * poly crc + X ^ w * poly c.toBitVec) := by
  obtain ⟨v, hv⟩ : ∃ v, v = (crc >>> (w - 8)) ^^^ c.toBitVec.setWidth w := ⟨_, rfl⟩
  have hhigh : (crc >>> (w - 8)).toNat < 2 ^ 8 := by
    rw [BitVec.toNat_ushiftRight, Nat.shiftRight_eq_div_pow]
    refine Nat.div_lt_of_lt_mul ?_
    rw [← Nat.pow_add, Nat.sub_add_cancel hw]
    exact crc.isLt
  have hc : (c.toBitVec.setWidth w).toNat = c.toNat := by
    rw [BitVec.toNat_setWidth]
    exact Nat.mod_eq_of_lt (lt_of_lt_of_le c.toNat_lt (Nat.pow_le_pow_right (by decide) hw))
  have hindex : v.toNat = (crc >>> (w - 8)).toNat ^^^ c.toNat := by rw [hv, BitVec.toNat_xor, hc]
  have hlt : v.toNat < 2 ^ 8 := by
    rw [hindex]
    exact Nat.xor_lt_two_pow hhigh c.toNat_lt
  have hbyte : poly (c.toBitVec.setWidth w) = poly c.toBitVec := by
    rw [poly_of_lt hw (by rw [hc]; exact c.toNat_lt), poly]
    refine Finset.sum_congr rfl fun i hi => ?_
    have h8 := Finset.mem_range.mp hi
    rw [coefficient, coefficient, BitVec.getLsbD_setWidth]
    simp [show i < w by omega]
  have hentry : table v.toNat = (step g)^[8] (v <<< (w - 8)) := by
    rw [ht v.toNat hlt, BitVec.ofNat_toNat, BitVec.setWidth_eq]
  have hpower : (X : (ZMod 2)[X]) ^ 8 * X ^ (w - 8) = X ^ w := by rw [← pow_add, Nat.add_sub_cancel' hw]
  have hroom : v.toNat < 2 ^ (w - (w - 8)) := by rwa [Nat.sub_sub_self hw]
  have htop : X ^ 8 * poly (v <<< (w - 8)) = X ^ w * (poly (crc >>> (w - 8)) + poly c.toBitVec) := by
    rw [poly_shiftLeft_of_lt (Nat.sub_le w 8) hroom, ← mul_assoc, hpower, hv, poly_xor, hbyte]
  rw [update, ← hindex, hentry, poly_xor, map_add, mk_steps (by omega), htop, poly_shiftLeft hw crc, ← map_add, mul_add,
    add_assoc]

variable {table : ℕ → BitVec w} {bytes : List UInt8}

theorem message_append (c : UInt8) : message (bytes ++ [c]) = X ^ 8 * message bytes + poly c.toBitVec := by
  rw [message, List.foldl_append, List.foldl_cons, List.foldl_nil, message]

theorem mk_updates (hw : 8 ≤ w) (ht : Tabulates g table) (bytes : List UInt8) :
    AdjoinRoot.mk (generator g) (poly (bytes.foldl (update table) 0)) =
      AdjoinRoot.mk (generator g) (X ^ w * message bytes) := by
  induction bytes using List.reverseRecOn with
  | nil =>
    rw [List.foldl_nil, poly_zero, message, List.foldl_nil, mul_zero]
  | append_singleton bytes c ih =>
    rw [List.foldl_append, List.foldl_cons, List.foldl_nil, mk_update hw ht, map_add, map_mul, ih, ← map_mul, ← map_add,
      message_append]
    congr 1
    ring

/-- The register of a check that a table computes is the remainder of the message. -/
theorem poly_updates (hw : 8 ≤ w) (ht : Tabulates g table) (bytes : List UInt8) :
    poly (bytes.foldl (update table) 0) = (X ^ w * message bytes) %ₘ generator g := by
  have hdvd := AdjoinRoot.mk_eq_mk.mp (mk_updates hw ht bytes)
  have hless : (poly (bytes.foldl (update table) 0)).degree < (generator g).degree := by
    rw [generator_degree]
    exact degree_poly_lt _
  rw [← modByMonic_eq_of_dvd_sub (generator_monic g) hdvd, (modByMonic_eq_self_iff (generator_monic g)).mpr hless]

end VmodRedis.Crc
