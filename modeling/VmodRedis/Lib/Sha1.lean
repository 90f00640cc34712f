import Mathlib.Algebra.Ring.Nat
import Mathlib.Data.List.GetD
import VmodRedis.Lib.BlockStream

/-!
The hash function SHA-1 of the secure hash standard, on messages of whole bytes.
-/

namespace VmodRedis.Sha1

open BlockStream

abbrev Word := BitVec 32

def word (b₀ b₁ b₂ b₃ : UInt8) : Word := b₀.toBitVec ++ b₁.toBitVec ++ b₂.toBitVec ++ b₃.toBitVec

def wordAt (block : List UInt8) (t : ℕ) : Word :=
  word (block.getD (4 * t) 0) (block.getD (4 * t + 1) 0) (block.getD (4 * t + 2) 0) (block.getD (4 * t + 3) 0)

def schedule (block : List UInt8) (t : ℕ) : Word :=
  if t < 16 then wordAt block t
  else (schedule block (t - 3) ^^^ schedule block (t - 8) ^^^ schedule block (t - 14) ^^^
    schedule block (t - 16)).rotateLeft 1
termination_by t

structure Vars where
  a : Word
  b : Word
  c : Word
  d : Word
  e : Word
deriving DecidableEq

def ch (x y z : Word) : Word := (x &&& y) ^^^ (~~~x &&& z)

def parity (x y z : Word) : Word := x ^^^ y ^^^ z

def maj (x y z : Word) : Word := (x &&& y) ^^^ (x &&& z) ^^^ (y &&& z)

def mix (t : ℕ) : Word → Word → Word → Word :=
  if t < 20 then ch else if t < 40 then parity else if t < 60 then maj else parity

def constant (t : ℕ) : Word :=
  if t < 20 then 0x5a827999 else if t < 40 then 0x6ed9eba1 else if t < 60 then 0x8f1bbcdc else 0xca62c1d6

def step (w : ℕ → Word) (v : Vars) (t : ℕ) : Vars :=
  ⟨v.a.rotateLeft 5 + mix t v.b v.c v.d + v.e + constant t + w t, v.a, v.b.rotateLeft 30, v.c, v.d⟩

def rounds (w : ℕ → Word) (n : ℕ) (v : Vars) : Vars := (List.range n).foldl (step w) v

def compress (h : Vars) (block : List UInt8) : Vars :=
  let v := rounds (schedule block) 80 h
  ⟨v.a + h.a, v.b + h.b, v.c + h.c, v.d + h.d, v.e + h.e⟩

def initial : Vars := ⟨0x67452301, 0xefcdab89, 0x98badcfe, 0x10325476, 0xc3d2e1f0⟩

def lengthBytes (bits : ℕ) : List UInt8 := (List.range 8).map fun i => .ofNat (bits / 2 ^ (8 * (7 - i)))

def padding (length : ℕ) : List UInt8 :=
  128 :: List.replicate ((119 - length % 64) % 64) 0 ++ lengthBytes (8 * length)

def wordBytes (w : Word) : List UInt8 := (List.range 4).map fun i => .ofBitVec (w.extractLsb' (8 * (3 - i)) 8)

def digest (h : Vars) : List UInt8 :=
  wordBytes h.a ++ wordBytes h.b ++ wordBytes h.c ++ wordBytes h.d ++ wordBytes h.e

def messageDigest (message : List UInt8) : List UInt8 :=
  digest (absorbWhole compress 64 initial (message ++ padding message.length))

theorem word_getLsbD (b₀ b₁ b₂ b₃ : UInt8) (i : ℕ) : (word b₀ b₁ b₂ b₃).getLsbD i =
    if i < 8 then b₃.toBitVec.getLsbD i else if i < 16 then b₂.toBitVec.getLsbD (i - 8)
    else if i < 24 then b₁.toBitVec.getLsbD (i - 16) else b₀.toBitVec.getLsbD (i - 24) := by
  have hminus : ∀ j k, i - j - k = i - (j + k) := fun j k => Nat.sub_sub i j k
  rw [word, BitVec.getLsbD_append, BitVec.getLsbD_append, BitVec.getLsbD_append, hminus, hminus]
  split_ifs <;> first | rfl | omega

theorem schedule_of_lt {block : List UInt8} {t : ℕ} (h : t < 16) : schedule block t = wordAt block t := by
  rw [schedule, if_pos h]

theorem schedule_of_le {block : List UInt8} {t : ℕ} (h : 16 ≤ t) :
    schedule block t = (schedule block (t - 3) ^^^ schedule block (t - 8) ^^^ schedule block (t - 14) ^^^
      schedule block (t - 16)).rotateLeft 1 := by
  rw [schedule, if_neg (by omega)]

theorem rounds_succ (w : ℕ → Word) (n : ℕ) (v : Vars) : rounds w (n + 1) v = step w (rounds w n v) n := by
  rw [rounds, List.range_succ, List.foldl_append, List.foldl_cons, List.foldl_nil, rounds]

theorem digest_length (h : Vars) : (digest h).length = 20 := rfl

end VmodRedis.Sha1
