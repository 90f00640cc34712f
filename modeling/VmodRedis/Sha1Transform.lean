import Mathlib.Tactic.IntervalCases
import VmodRedis.CStrings
import VmodRedis.Lib.Sha1

namespace VmodRedis.Sha1Transform

open CStrings Sha1

inductive ByteOrder
  | little
  | big
deriving DecidableEq

inductive Var
  | a
  | b
  | c
  | d
  | e
deriving DecidableEq

structure Work where
  var : Var → Word
  block : Vector Word 16

def rol (value : Word) (bits : ℕ) : Word := (value <<< bits) ||| (value >>> (32 - bits))

def load : ByteOrder → Bytes → ℕ → Word
  | .big, buffer, i => wordAt buffer i
  | .little, buffer, i => word (buffer.getD (4 * i + 3) 0) (buffer.getD (4 * i + 2) 0) (buffer.getD (4 * i + 1) 0)
      (buffer.getD (4 * i) 0)

def blk0 (order : ByteOrder) (i : ℕ) (m : Work) : Word × Work :=
  match order with
  | .little =>
    let swapped := (rol m.block[i]! 24 &&& 0xFF00FF00) ||| (rol m.block[i]! 8 &&& 0x00FF00FF)
    (swapped, { m with block := m.block.set! i swapped })
  | .big => (m.block[i]!, m)

def blk (i : ℕ) (m : Work) : Word × Work :=
  let next := rol (m.block[(i + 13) &&& 15]! ^^^ m.block[(i + 8) &&& 15]! ^^^ m.block[(i + 2) &&& 15]! ^^^
    m.block[i &&& 15]!) 1
  (next, { m with block := m.block.set! (i &&& 15) next })

/-- The operations `R0` to `R4`: `f` mixes three variables, `expand` yields the word and updates the block. -/
def operation (f : Word → Word → Word → Word) (expand : ℕ → Work → Word × Work) (k : Word) (v w x y z : Var)
    (i : ℕ) (m : Work) : Work :=
  let mixed := f (m.var w) (m.var x) (m.var y)
  let (next, m) := expand i m
  let m := { m with var := Function.update m.var z (m.var z + (mixed + next + k + rol (m.var v) 5)) }
  { m with var := Function.update m.var w (rol (m.var w) 30) }

def R0 (order : ByteOrder) := operation (fun w x y => (w &&& (x ^^^ y)) ^^^ y) (blk0 order) 0x5A827999

def R1 := operation (fun w x y => (w &&& (x ^^^ y)) ^^^ y) blk 0x5A827999

def R2 := operation (fun w x y => w ^^^ x ^^^ y) blk 0x6ED9EBA1

def R3 := operation (fun w x y => ((w ||| x) &&& y) ||| (w &&& x)) blk 0x8F1BBCDC

def R4 := operation (fun w x y => w ^^^ x ^^^ y) blk 0xCA62C1D6

def round1 (order : ByteOrder) : List (Work → Work) := [
  R0 order .a .b .c .d .e 0, R0 order .e .a .b .c .d 1, R0 order .d .e .a .b .c 2, R0 order .c .d .e .a .b 3,
  R0 order .b .c .d .e .a 4, R0 order .a .b .c .d .e 5, R0 order .e .a .b .c .d 6, R0 order .d .e .a .b .c 7,
  R0 order .c .d .e .a .b 8, R0 order .b .c .d .e .a 9, R0 order .a .b .c .d .e 10, R0 order .e .a .b .c .d 11,
  R0 order .d .e .a .b .c 12, R0 order .c .d .e .a .b 13, R0 order .b .c .d .e .a 14, R0 order .a .b .c .d .e 15,
  R1 .e .a .b .c .d 16, R1 .d .e .a .b .c 17, R1 .c .d .e .a .b 18, R1 .b .c .d .e .a 19]

def round2 : List (Work → Work) := [
  R2 .a .b .c .d .e 20, R2 .e .a .b .c .d 21, R2 .d .e .a .b .c 22, R2 .c .d .e .a .b 23,
  R2 .b .c .d .e .a 24, R2 .a .b .c .d .e 25, R2 .e .a .b .c .d 26, R2 .d .e .a .b .c 27,
  R2 .c .d .e .a .b 28, R2 .b .c .d .e .a 29, R2 .a .b .c .d .e 30, R2 .e .a .b .c .d 31,
  R2 .d .e .a .b .c 32, R2 .c .d .e .a .b 33, R2 .b .c .d .e .a 34, R2 .a .b .c .d .e 35,
  R2 .e .a .b .c .d 36, R2 .d .e .a .b .c 37, R2 .c .d .e .a .b 38, R2 .b .c .d .e .a 39]

def round3 : List (Work → Work) := [
  R3 .a .b .c .d .e 40, R3 .e .a .b .c .d 41, R3 .d .e .a .b .c 42, R3 .c .d .e .a .b 43,
  R3 .b .c .d .e .a 44, R3 .a .b .c .d .e 45, R3 .e .a .b .c .d 46, R3 .d .e .a .b .c 47,
  R3 .c .d .e .a .b 48, R3 .b .c .d .e .a 49, R3 .a .b .c .d .e 50, R3 .e .a .b .c .d 51,
  R3 .d .e .a .b .c 52, R3 .c .d .e .a .b 53, R3 .b .c .d .e .a 54, R3 .a .b .c .d .e 55,
  R3 .e .a .b .c .d 56, R3 .d .e .a .b .c 57, R3 .c .d .e .a .b 58, R3 .b .c .d .e .a 59]

def round4 : List (Work → Work) := [
  R4 .a .b .c .d .e 60, R4 .e .a .b .c .d 61, R4 .d .e .a .b .c 62, R4 .c .d .e .a .b 63,
  R4 .b .c .d .e .a 64, R4 .a .b .c .d .e 65, R4 .e .a .b .c .d 66, R4 .d .e .a .b .c 67,
  R4 .c .d .e .a .b 68, R4 .b .c .d .e .a 69, R4 .a .b .c .d .e 70, R4 .e .a .b .c .d 71,
  R4 .d .e .a .b .c 72, R4 .c .d .e .a .b 73, R4 .b .c .d .e .a 74, R4 .a .b .c .d .e 75,
  R4 .e .a .b .c .d 76, R4 .d .e .a .b .c 77, R4 .c .d .e .a .b 78, R4 .b .c .d .e .a 79]

def unrolled (order : ByteOrder) : List (Work → Work) := round1 order ++ round2 ++ round3 ++ round4

def Work.start (order : ByteOrder) (state : Vector Word 5) (buffer : Bytes) : Work :=
  ⟨fun
    | .a => state[0]
    | .b => state[1]
    | .c => state[2]
    | .d => state[3]
    | .e => state[4], .ofFn fun i => load order buffer i⟩

def Work.run (rounds : List (Work → Work)) (m : Work) : Work := rounds.foldl (fun m round => round m) m

def SHA1Transform (order : ByteOrder) (state : Vector Word 5) (buffer : Bytes) : Vector Word 5 :=
  let m := Work.run (unrolled order) (Work.start order state buffer)
  #v[state[0] + m.var .a, state[1] + m.var .b, state[2] + m.var .c, state[3] + m.var .d, state[4] + m.var .e]

def cyclic (k : ℕ) : Var :=
  match k % 5 with
  | 0 => .a
  | 1 => .b
  | 2 => .c
  | 3 => .d
  | _ => .e

/-- The operation of step `t`. Each step renames the variables by one place. -/
def operationAt (order : ByteOrder) (t : ℕ) : Work → Work :=
  let perform := if t < 16 then R0 order else if t < 20 then R1 else if t < 40 then R2 else if t < 60 then R3 else R4
  perform (cyclic (4 * t)) (cyclic (4 * t + 1)) (cyclic (4 * t + 2)) (cyclic (4 * t + 3)) (cyclic (4 * t + 4)) t

theorem unrolled_eq (order : ByteOrder) : unrolled order = (List.range 80).map (operationAt order) := rfl

theorem cyclic_inj {j k : ℕ} : cyclic j = cyclic k ↔ j % 5 = k % 5 := by
  have hj : j % 5 < 5 := Nat.mod_lt j (by decide)
  have hk : k % 5 < 5 := Nat.mod_lt k (by decide)
  unfold cyclic
  interval_cases j % 5 <;> interval_cases k % 5 <;> decide

theorem rol_eq (value : Word) {bits : ℕ} (h : bits < 32) : rol value bits = value.rotateLeft bits := by
  rw [rol, BitVec.rotateLeft, BitVec.rotateLeftAux, Nat.mod_eq_of_lt h]

theorem select_eq_ch (x y z : Word) : (x &&& (y ^^^ z)) ^^^ z = ch x y z := by
  ext i hi
  simp only [ch, BitVec.getElem_xor, BitVec.getElem_and, BitVec.getElem_not]
  cases x[i] <;> cases y[i] <;> cases z[i] <;> rfl

theorem majority_eq_maj (x y z : Word) : ((x ||| y) &&& z) ||| (x &&& y) = maj x y z := by
  ext i hi
  simp only [maj, BitVec.getElem_xor, BitVec.getElem_and, BitVec.getElem_or]
  cases x[i] <;> cases y[i] <;> cases z[i] <;> rfl

theorem swap_word (b₀ b₁ b₂ b₃ : UInt8) :
    (rol (word b₃ b₂ b₁ b₀) 24 &&& 0xFF00FF00) ||| (rol (word b₃ b₂ b₁ b₀) 8 &&& 0x00FF00FF) = word b₀ b₁ b₂ b₃ := by
  apply BitVec.eq_of_getLsbD_eq
  intro i hi
  rw [word_getLsbD]
  simp only [rol, BitVec.getLsbD_or, BitVec.getLsbD_and, BitVec.getLsbD_shiftLeft, BitVec.getLsbD_ushiftRight,
    word_getLsbD]
  interval_cases i <;> simp

def expandAt (order : ByteOrder) (t : ℕ) : ℕ → Work → Word × Work := if t < 16 then blk0 order else blk

theorem operationAt_eq (order : ByteOrder) (t : ℕ) :
    operationAt order t = operation (mix t) (expandAt order t) (constant t) (cyclic (4 * t)) (cyclic (4 * t + 1))
      (cyclic (4 * t + 2)) (cyclic (4 * t + 3)) (cyclic (4 * t + 4)) t := by
  have hselect : (fun w x y : Word => (w &&& (x ^^^ y)) ^^^ y) = ch := by
    funext w x y
    exact select_eq_ch w x y
  have hmajority : (fun w x y : Word => ((w ||| x) &&& y) ||| (w &&& x)) = maj := by
    funext w x y
    exact majority_eq_maj w x y
  unfold operationAt R0 R1 R2 R3 R4 mix expandAt constant
  rw [hselect, hmajority]
  split_ifs <;> first | omega | rfl

/-- The block before step `n`: the last sixteen words of the schedule, and those not yet reached as they were copied. -/
def Expanded (order : ByteOrder) (buffer : Bytes) (n : ℕ) (block : Vector Word 16) : Prop :=
  (∀ t < n, n ≤ t + 16 → block[t % 16]! = schedule buffer t) ∧
    ∀ t, n ≤ t → t < 16 → block[t]! = load order buffer t

theorem set_get (block : Vector Word 16) {i j : ℕ} (value : Word) (hj : j < 16) :
    (block.set! i value)[j]! = if i = j then value else block[j]! := by
  rw [getElem!_pos (block.set! i value) j hj, getElem!_pos block j hj, Vector.getElem_set!]

theorem blk0_spec {order : ByteOrder} {buffer : Bytes} {n : ℕ} {m : Work} (hn : n < 16)
    (h : Expanded order buffer n m.block) : (blk0 order n m).1 = schedule buffer n ∧ (blk0 order n m).2.var = m.var ∧
      Expanded order buffer (n + 1) (blk0 order n m).2.block := by
  obtain ⟨hdone, hcopied⟩ := h
  have hload := hcopied n (Nat.le_refl n) hn
  have hword : (blk0 order n m).1 = schedule buffer n := by
    rw [schedule_of_lt hn]
    cases order with
    | big => exact hload
    | little =>
      dsimp only [blk0]
      rw [hload, load, swap_word, wordAt]
  have hblock : ∀ t < 16, (blk0 order n m).2.block[t]! = if n = t then schedule buffer n else m.block[t]! := by
    intro t ht
    cases order with
    | big =>
      split_ifs with hnt
      · rw [← hnt, ← hword]
        rfl
      · rfl
    | little => rw [← hword, ← set_get _ _ ht]; rfl
  refine ⟨hword, by cases order <;> rfl, fun t ht hle => ?_, fun t hle ht => ?_⟩
  · rw [Nat.mod_eq_of_lt (by omega), hblock t (by omega)]
    split_ifs with hnt
    · rw [hnt]
    · have h := hdone t (by omega) (by omega)
      rwa [Nat.mod_eq_of_lt (by omega)] at h
  · rw [hblock t ht, if_neg (by omega), hcopied t (by omega) ht]

theorem blk_spec {order : ByteOrder} {buffer : Bytes} {n : ℕ} {m : Work} (hn : 16 ≤ n)
    (h : Expanded order buffer n m.block) : (blk n m).1 = schedule buffer n ∧ (blk n m).2.var = m.var ∧
      Expanded order buffer (n + 1) (blk n m).2.block := by
  have hmask : ∀ i : ℕ, i &&& 15 = i % 16 := fun i => Nat.and_two_pow_sub_one_eq_mod i 4
  have hback : ∀ k, 0 < k → k ≤ 16 → m.block[(n + (16 - k)) % 16]! = schedule buffer (n - k) := by
    intro k hk hle
    have hmod : (n + (16 - k)) % 16 = (n - k) % 16 := by omega
    rw [hmod]
    exact h.1 (n - k) (by omega) (by omega)
  have hlast : m.block[n % 16]! = schedule buffer (n - 16) := hback 16 (by decide) (Nat.le_refl 16)
  have hword : (blk n m).1 = schedule buffer n := by
    dsimp only [blk]
    rw [hmask, hmask, hmask, hmask, hback 3 (by decide) (by decide), hback 8 (by decide) (by decide),
      hback 14 (by decide) (by decide), hlast, schedule_of_le hn, rol_eq _ (by decide)]
  have hblock : ∀ t < 16, (blk n m).2.block[t]! = if n % 16 = t then schedule buffer n else m.block[t]! := by
    intro t ht
    rw [← hword, ← hmask n, ← set_get _ _ ht]
    rfl
  refine ⟨hword, rfl, fun t ht hle => ?_, fun t hle ht => by omega⟩
  rw [hblock _ (Nat.mod_lt t (by decide))]
  split_ifs with hnt
  · have hself : n = t := by omega
    rw [hself]
  · exact h.1 t (by omega) (by omega)

theorem expandAt_spec {order : ByteOrder} {buffer : Bytes} {n : ℕ} {m : Work} (h : Expanded order buffer n m.block) :
    (expandAt order n n m).1 = schedule buffer n ∧ (expandAt order n n m).2.var = m.var ∧
      Expanded order buffer (n + 1) (expandAt order n n m).2.block := by
  unfold expandAt
  split_ifs with hn
  · exact blk0_spec hn h
  · exact blk_spec (by omega) h

def Work.vars (m : Work) (n : ℕ) : Vars :=
  ⟨m.var (cyclic (4 * n)), m.var (cyclic (4 * n + 1)), m.var (cyclic (4 * n + 2)), m.var (cyclic (4 * n + 3)),
    m.var (cyclic (4 * n + 4))⟩

theorem operationAt_step {order : ByteOrder} {buffer : Bytes} {n : ℕ} {m : Work}
    (h : Expanded order buffer n m.block) :
    (operationAt order n m).vars (n + 1) = step (schedule buffer) (m.vars n) n ∧
      Expanded order buffer (n + 1) (operationAt order n m).block := by
  obtain ⟨hword, hvar, hexpanded⟩ := expandAt_spec h
  rw [operationAt_eq]
  refine ⟨?_, hexpanded⟩
  have hv : cyclic (4 * (n + 1) + 1) = cyclic (4 * n) := cyclic_inj.mpr (by omega)
  have hw : cyclic (4 * (n + 1) + 2) = cyclic (4 * n + 1) := cyclic_inj.mpr (by omega)
  have hx : cyclic (4 * (n + 1) + 3) = cyclic (4 * n + 2) := cyclic_inj.mpr (by omega)
  have hy : cyclic (4 * (n + 1) + 4) = cyclic (4 * n + 3) := cyclic_inj.mpr (by omega)
  have hne : ∀ i j : ℕ, i % 5 ≠ j % 5 → cyclic i ≠ cyclic j := fun i j h => mt cyclic_inj.mp h
  dsimp only [Work.vars, operation, step]
  rw [hvar, hword, hv, hw, hx, hy, Nat.mul_succ]
  simp only [Function.update_self, Function.update_of_ne (hne (4 * n + 4) (4 * n + 1) (by omega)),
    Function.update_of_ne (hne (4 * n) (4 * n + 1) (by omega)),
    Function.update_of_ne (hne (4 * n) (4 * n + 4) (by omega)),
    Function.update_of_ne (hne (4 * n + 1) (4 * n + 4) (by omega)),
    Function.update_of_ne (hne (4 * n + 2) (4 * n + 1) (by omega)),
    Function.update_of_ne (hne (4 * n + 2) (4 * n + 4) (by omega)),
    Function.update_of_ne (hne (4 * n + 3) (4 * n + 1) (by omega)),
    Function.update_of_ne (hne (4 * n + 3) (4 * n + 4) (by omega)),
    rol_eq _ (show 5 < 32 by decide), rol_eq _ (show 30 < 32 by decide)]
  congr 1
  ac_rfl

theorem run_vars {order : ByteOrder} {buffer : Bytes} {m : Work} (h : Expanded order buffer 0 m.block) (n : ℕ) :
    (Work.run ((List.range n).map (operationAt order)) m).vars n = rounds (schedule buffer) n (m.vars 0) ∧
      Expanded order buffer n (Work.run ((List.range n).map (operationAt order)) m).block := by
  induction n with
  | zero => exact ⟨rfl, h⟩
  | succ n ih =>
    obtain ⟨hvars, hblock⟩ := ih
    have hrun : Work.run ((List.range (n + 1)).map (operationAt order)) m =
        operationAt order n (Work.run ((List.range n).map (operationAt order)) m) := by
      simp [Work.run, List.range_succ]
    rw [hrun, rounds_succ, ← hvars]
    exact operationAt_step hblock

theorem expanded_start (order : ByteOrder) (state : Vector Word 5) (buffer : Bytes) :
    Expanded order buffer 0 (Work.start order state buffer).block := by
  refine ⟨fun t ht => by omega, fun t _ ht => ?_⟩
  rw [getElem!_pos _ t ht]
  simp [Work.start]

def toVars (state : Vector Word 5) : Vars := ⟨state[0], state[1], state[2], state[3], state[4]⟩

/-- Whatever the byte order of the host, the unrolled and in-place code is the compression function of the standard. -/
theorem SHA1Transform_eq (order : ByteOrder) (state : Vector Word 5) (buffer : Bytes) :
    toVars (SHA1Transform order state buffer) = compress (toVars state) buffer := by
  obtain ⟨hvars, -⟩ := run_vars (expanded_start order state buffer) 80
  rw [← unrolled_eq] at hvars
  have hstart : (Work.start order state buffer).vars 0 = toVars state := rfl
  rw [compress, ← hstart, ← hvars]
  dsimp only [SHA1Transform, toVars]
  congr 1 <;> exact BitVec.add_comm _ _

end VmodRedis.Sha1Transform
