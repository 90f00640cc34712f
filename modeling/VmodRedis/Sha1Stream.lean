import VmodRedis.Sha1Transform

namespace VmodRedis.Sha1Stream

open CStrings Sha1 BlockStream Sha1Transform

structure Sha1Ctx where
  state : Vector Word 5
  count : Vector Word 2
  buffer : Vector UInt8 64

/-- A copy into the buffer of a context: none when it would write behind it. -/
def memcpy (buffer : Vector UInt8 64) (j : ℕ) (source : Bytes) : Option (Vector UInt8 64) :=
  if j + source.length ≤ 64 then
    some (.ofFn fun i => if (i : ℕ) < j then buffer[i] else source.getD (i - j) buffer[i])
  else none

def read (data : Bytes) (i n : ℕ) : Option Bytes :=
  if i + n ≤ data.length then some ((data.drop i).take n) else none

def SHA1Init (context : Sha1Ctx) : Sha1Ctx :=
  { context with
    state := #v[0x67452301, 0xEFCDAB89, 0x98BADCFE, 0x10325476, 0xC3D2E1F0]
    count := #v[0, 0] }

def transformBlocks (order : ByteOrder) (data : Bytes) (len : Word) :
    ℕ → Vector Word 5 → Word → Option (Vector Word 5 × Word)
  | 0, _, _ => none
  | fuel + 1, state, i =>
    if i + 63 < len then do
      let block ← read data i.toNat 64
      transformBlocks order data len fuel (SHA1Transform order state block) (i + 64)
    else some (state, i)

def countBits (count : Vector Word 2) (len : Word) : Vector Word 2 :=
  let low := count[0] + (len <<< 3)
  let high := if low < count[0] then count[1] + 1 else count[1]
  #v[low, high + (len >>> 29)]

/-- None when memory outside of the buffer or of the data is accessed. -/
def SHA1Update (order : ByteOrder) (context : Sha1Ctx) (data : Bytes) (len : Word) : Option Sha1Ctx := do
  let j := (context.count[0] >>> 3) &&& 63
  let count := countBits context.count len
  if 63 < j + len then
    let first ← read data 0 (64 - j).toNat
    let buffer ← memcpy context.buffer j.toNat first
    let state := SHA1Transform order context.state buffer.toList
    let (state, i) ← transformBlocks order data len (len.toNat + 1) state (64 - j)
    let rest ← read data i.toNat (len - i).toNat
    let buffer ← memcpy buffer 0 rest
    some ⟨state, count, buffer⟩
  else
    let rest ← read data 0 len.toNat
    let buffer ← memcpy context.buffer j.toNat rest
    some ⟨context.state, count, buffer⟩

def finalcount (count : Vector Word 2) : Bytes :=
  (List.range 8).map fun i =>
    .ofBitVec (((count[if 4 ≤ i then 0 else 1]! >>> ((3 - (i &&& 3)) * 8)) &&& 255).setWidth 8)

def padZeros (order : ByteOrder) : ℕ → Sha1Ctx → Option Sha1Ctx
  | 0, _ => none
  | fuel + 1, context =>
    if context.count[0] &&& 504 ≠ 448 then do
      let context ← SHA1Update order context [0] 1
      padZeros order fuel context
    else some context

def SHA1Final (order : ByteOrder) (context : Sha1Ctx) : Option Bytes := do
  let length := finalcount context.count
  let context ← SHA1Update order context [128] 1
  let context ← padZeros order 64 context
  let context ← SHA1Update order context length 8
  some ((List.range 20).map fun i =>
    .ofBitVec (((context.state[i >>> 2]! >>> ((3 - (i &&& 3)) * 8)) &&& 255).setWidth 8))

/-- A context stands for the bytes that it was given: the whole blocks are in the state, the rest is in the buffer. -/
structure Absorbed (context : Sha1Ctx) (message : Bytes) : Prop where
  state : toVars context.state = absorbWhole compress 64 initial message
  low : context.count[0].toNat = 8 * message.length % 2 ^ 32
  high : context.count[1].toNat = 8 * message.length / 2 ^ 32 % 2 ^ 32
  buffer : context.buffer.toList.take (message.length % 64) = remainder 64 message

section

variable {order : ByteOrder} {context : Sha1Ctx} {message data text : Bytes} {len : Word}

theorem absorbed_init (context : Sha1Ctx) : Absorbed (SHA1Init context) [] := ⟨rfl, rfl, rfl, rfl⟩

theorem memcpy_eq_none {buffer : Vector UInt8 64} {j : ℕ} {source : Bytes} (h : 64 < j + source.length) :
    memcpy buffer j source = none := by
  rw [memcpy, if_neg (by omega)]

theorem memcpy_spec (buffer : Vector UInt8 64) (j : ℕ) (source : Bytes) (h : j + source.length ≤ 64) :
    ∃ copied, memcpy buffer j source = some copied ∧
      copied.toList.take (j + source.length) = buffer.toList.take j ++ source := by
  refine ⟨_, if_pos h, ?_⟩
  apply List.ext_getElem
  · simp
    omega
  · intro i hi _
    have hlt : i < j + source.length := by
      rw [List.length_take] at hi
      omega
    have hj : (buffer.toList.take j).length = j := by
      rw [List.length_take, Vector.length_toList]
      omega
    rw [List.getElem_take, Vector.getElem_toList, Vector.getElem_ofFn]
    dsimp only
    split_ifs with hij
    · rw [List.getElem_append_left (by omega), List.getElem_take, Vector.getElem_toList]
      rfl
    · simp only [List.getElem_append_right (show (buffer.toList.take j).length ≤ i by omega), hj]
      exact List.getD_eq_getElem _ _ (by omega)

theorem read_eq {i n : ℕ} (h : i + n ≤ data.length) : read data i n = some ((data.drop i).take n) := if_pos h

theorem countBits_spec {count : Vector Word 2} {n : ℕ} (hlow : count[0].toNat = 8 * n % 2 ^ 32)
    (hhigh : count[1].toNat = 8 * n / 2 ^ 32 % 2 ^ 32) (len : Word) :
    (countBits count len)[0].toNat = 8 * (n + len.toNat) % 2 ^ 32 ∧
      (countBits count len)[1].toNat = 8 * (n + len.toNat) / 2 ^ 32 % 2 ^ 32 := by
  have hshift : (len <<< 3).toNat = 8 * len.toNat % 2 ^ 32 := by
    rw [BitVec.toNat_shiftLeft, Nat.shiftLeft_eq, Nat.mul_comm]
  have hcarry : (len >>> 29).toNat = len.toNat / 2 ^ 29 := by
    rw [BitVec.toNat_ushiftRight, Nat.shiftRight_eq_div_pow]
  have hlen := len.isLt
  have hsum : (count[0] + (len <<< 3)).toNat = 8 * (n + len.toNat) % 2 ^ 32 := by
    rw [BitVec.toNat_add, hlow, hshift]
    omega
  refine ⟨hsum, ?_⟩
  change ((if count[0] + (len <<< 3) < count[0] then count[1] + 1 else count[1]) + (len >>> 29)).toNat = _
  rw [BitVec.toNat_add, hcarry]
  split_ifs with hless
  · rw [BitVec.lt_def, hsum, hlow] at hless
    have hone : (1 : Word).toNat = 1 := rfl
    rw [BitVec.toNat_add, hhigh, hone]
    omega
  · rw [BitVec.lt_def, hsum, hlow] at hless
    rw [hhigh]
    omega

theorem Absorbed.filled (h : Absorbed context message) :
    ((context.count[0] >>> 3) &&& 63).toNat = message.length % 64 := by
  have hmask : ∀ i : ℕ, i &&& 63 = i % 64 := fun i => Nat.and_two_pow_sub_one_eq_mod i 6
  rw [BitVec.toNat_and, BitVec.toNat_ushiftRight, h.low, Nat.shiftRight_eq_div_pow]
  change _ &&& 63 = _
  rw [hmask]
  omega

theorem transformBlocks_spec (order : ByteOrder) (htext : text = data.take len.toNat) (hdata : len.toNat ≤ data.length)
    {fuel : ℕ} (state : Vector Word 5) {i : Word} (hi : i.toNat ≤ len.toNat)
    (hwrap : i.toNat + 64 * ((len.toNat - i.toNat) / 64) + 63 < 2 ^ 32) (hfuel : (len.toNat - i.toNat) / 64 < fuel) :
    ∃ state' i', transformBlocks order data len fuel state i = some (state', i') ∧
      i'.toNat = i.toNat + 64 * ((len.toNat - i.toNat) / 64) ∧
      toVars state' = absorbWhole compress 64 (toVars state) (text.drop i.toNat) := by
  have hlength : (text.drop i.toNat).length = len.toNat - i.toNat := by
    rw [htext, List.length_drop, List.length_take]
    omega
  induction fuel generalizing state i with
  | zero => omega
  | succ fuel ih =>
    have hnext : (i + 63).toNat = i.toNat + 63 := by
      rw [BitVec.toNat_add]
      exact Nat.mod_eq_of_lt (by change i.toNat + 63 < 2 ^ 32; omega)
    unfold transformBlocks
    split_ifs with hless
    · rw [BitVec.lt_def, hnext] at hless
      have hsucc : (i + 64).toNat = i.toNat + 64 := by
        rw [BitVec.toNat_add]
        exact Nat.mod_eq_of_lt (by change i.toNat + 64 < 2 ^ 32; omega)
      have hread : read data i.toNat 64 = some ((text.drop i.toNat).take 64) := by
        rw [read_eq (by omega), htext, List.drop_take, List.take_take, Nat.min_eq_left (by omega)]
      have hlength' : (text.drop (i + 64).toNat).length = len.toNat - (i + 64).toNat := by
        rw [hsucc, ← List.drop_drop, List.length_drop, hlength]
        omega
      obtain ⟨state', i', hrun, hi', hstate⟩ := ih (SHA1Transform order state ((text.drop i.toNat).take 64))
        (by omega) (by omega) (by omega) hlength'
      refine ⟨state', i', ?_, by omega, ?_⟩
      · rw [hread]
        exact hrun
      · rw [hstate, SHA1Transform_eq, hsucc, absorbWhole_step _ (text.drop i.toNat) (by decide) (by omega),
          List.drop_drop]
    · rw [BitVec.lt_def, hnext] at hless
      have hzero : (len.toNat - i.toNat) / 64 = 0 := Nat.div_eq_of_lt (by omega)
      refine ⟨state, i, rfl, by rw [hzero, Nat.mul_zero, Nat.add_zero], ?_⟩
      rw [absorbWhole_of_lt (by omega)]

theorem Absorbed.append (h : Absorbed context message) {state : Vector Word 5} {buffer : Vector UInt8 64}
    (htext : text.length = len.toNat)
    (hstate : toVars state = absorbWhole compress 64 (toVars context.state) (remainder 64 message ++ text))
    (hbuffer : buffer.toList.take ((message ++ text).length % 64) = remainder 64 (remainder 64 message ++ text)) :
    Absorbed ⟨state, countBits context.count len, buffer⟩ (message ++ text) := by
  obtain ⟨hlow, hhigh⟩ := countBits_spec h.low h.high len
  constructor
  · rw [absorbWhole_append (by decide), ← h.state]
    exact hstate
  · rw [List.length_append, htext]
    exact hlow
  · rw [List.length_append, htext]
    exact hhigh
  · rw [remainder_append (by decide)]
    exact hbuffer

theorem Absorbed.before (h : Absorbed context message) {j : Word} (hj : (context.count[0] >>> 3) &&& 63 = j) :
    j.toNat < 64 ∧ (remainder 64 message).length = j.toNat ∧
      context.buffer.toList.take j.toNat = remainder 64 message := by
  have hfilled : j.toNat = message.length % 64 := by rw [← hj, h.filled]
  rw [remainder_length, hfilled]
  exact ⟨Nat.mod_lt _ (by decide), rfl, h.buffer⟩

theorem threshold_iff {j : Word} (hfits : j.toNat + len.toNat < 2 ^ 32) :
    63 < j + len ↔ 63 < j.toNat + len.toNat := by
  rw [BitVec.lt_def, BitVec.toNat_add, Nat.mod_eq_of_lt hfits]
  rfl

theorem update_short (order : ByteOrder) (h : Absorbed context message) {j : Word}
    (hj : (context.count[0] >>> 3) &&& 63 = j) (hdata : len.toNat ≤ data.length) (htext : text = data.take len.toNat)
    (hshort : j.toNat + len.toNat ≤ 63) :
    ∃ context', SHA1Update order context data len = some context' ∧ Absorbed context' (message ++ text) := by
  obtain ⟨-, hrest, hbefore⟩ := h.before hj
  have hlength : text.length = len.toNat := by
    rw [htext, List.length_take]
    omega
  have hread : read data 0 len.toNat = some text := by
    rw [read_eq (by omega), List.drop_zero, htext]
  have hless : (remainder 64 message ++ text).length < 64 := by
    rw [List.length_append]
    omega
  obtain ⟨buffer, hcopy, hbuffer⟩ := memcpy_spec context.buffer j.toNat text (by omega)
  refine ⟨⟨context.state, countBits context.count len, buffer⟩, ?_, h.append hlength ?_ ?_⟩
  · unfold SHA1Update
    rw [hj, if_neg (by rw [threshold_iff (by omega)]; omega), hread]
    dsimp only [Option.bind_eq_bind, Option.bind_some]
    rw [hcopy]
    rfl
  · rw [absorbWhole_of_lt hless]
  · have hmod : (message ++ text).length % 64 = j.toNat + text.length := by
      rw [remainder_length] at hrest
      rw [List.length_append]
      omega
    rw [hmod, hbuffer, hbefore, remainder_of_lt hless]

theorem update_full (order : ByteOrder) (h : Absorbed context message) {j : Word}
    (hj : (context.count[0] >>> 3) &&& 63 = j) (hdata : len.toNat ≤ data.length) (htext : text = data.take len.toNat)
    (hfull : 63 < j.toNat + len.toNat) (hfits : j.toNat + len.toNat < 2 ^ 32) :
    ∃ context', SHA1Update order context data len = some context' ∧ Absorbed context' (message ++ text) := by
  obtain ⟨hlt, hrest, hbefore⟩ := h.before hj
  have hlength : text.length = len.toNat := by
    rw [htext, List.length_take]
    omega
  have hroom : (64 - j).toNat = 64 - j.toNat := by
    rw [BitVec.toNat_sub_of_le (by rw [BitVec.le_def]; change j.toNat ≤ 64; omega)]
    rfl
  have hstart : (64 - j).toNat ≤ len.toNat := by omega
  have hfuel : (len.toNat - (64 - j).toNat) / 64 < len.toNat + 1 := by omega
  have hfirst : read data 0 (64 - j).toNat = some (text.take (64 - j.toNat)) := by
    rw [read_eq (by omega), hroom, List.drop_zero, htext, List.take_take, Nat.min_eq_left (by omega)]
  have hcopied : (text.take (64 - j.toNat)).length = 64 - j.toNat := by
    rw [List.length_take]
    omega
  obtain ⟨buffer, hcopy, hbuffer⟩ := memcpy_spec context.buffer j.toNat (text.take (64 - j.toNat)) (by omega)
  have hblock : buffer.toList = remainder 64 message ++ text.take (64 - j.toNat) := by
    rw [hcopied, hbefore] at hbuffer
    rw [← hbuffer, List.take_of_length_le (by rw [Vector.length_toList]; omega)]
  obtain ⟨state, i, hrun, hi, hstate⟩ := transformBlocks_spec order htext hdata
    (SHA1Transform order context.state buffer.toList) hstart (by omega) hfuel
  have hwhole : 64 ≤ (remainder 64 message ++ text).length := by
    rw [List.length_append]
    omega
  have htake : (remainder 64 message ++ text).take 64 = buffer.toList := by
    rw [hblock, List.take_append, List.take_of_length_le (by omega), hrest]
  have hdrop : (remainder 64 message ++ text).drop 64 = text.drop (64 - j).toNat := by
    rw [List.drop_append, List.drop_eq_nil_of_le (by omega), List.nil_append, hrest, hroom]
  have hlast : read data i.toNat (len - i).toNat = some (text.drop i.toNat) := by
    have hminus : (len - i).toNat = len.toNat - i.toNat :=
      BitVec.toNat_sub_of_le (by rw [BitVec.le_def]; omega)
    rw [read_eq (by omega), hminus, htext, List.drop_take]
  have hleft : (text.drop i.toNat).length = (message ++ text).length % 64 := by
    rw [remainder_length] at hrest
    rw [List.length_drop, List.length_append]
    omega
  obtain ⟨final, hfinal, hend⟩ := memcpy_spec buffer 0 (text.drop i.toNat) (by omega)
  refine ⟨⟨state, countBits context.count len, final⟩, ?_, h.append hlength ?_ ?_⟩
  · unfold SHA1Update
    rw [hj, if_pos (by rwa [threshold_iff hfits]), hfirst]
    dsimp only [Option.bind_eq_bind, Option.bind_some]
    rw [hcopy]
    dsimp only [Option.bind_eq_bind, Option.bind_some]
    rw [hrun]
    dsimp only [Option.bind_eq_bind, Option.bind_some]
    rw [hlast]
    dsimp only [Option.bind_eq_bind, Option.bind_some]
    rw [hfinal]
    rfl
  · rw [hstate, SHA1Transform_eq, absorbWhole_step _ (remainder 64 message ++ text) (by decide) hwhole, htake, hdrop]
  · rw [List.take_zero, List.nil_append, Nat.zero_add, hleft] at hend
    have hdiv : (text.drop (64 - j).toNat).length / 64 = (len.toNat - (64 - j).toNat) / 64 := by
      rw [List.length_drop, hlength]
    rw [hend, remainder_step (remainder 64 message ++ text) (by decide) hwhole, hdrop, remainder, hdiv,
      List.drop_drop, hi]

theorem update_spec (order : ByteOrder) (h : Absorbed context message) (hdata : len.toNat ≤ data.length)
    (hfits : message.length % 64 + len.toNat < 2 ^ 32) : ∃ context', SHA1Update order context data len = some context' ∧
      Absorbed context' (message ++ data.take len.toNat) := by
  rw [← h.filled] at hfits
  rcases Nat.lt_or_ge 63 (((context.count[0] >>> 3) &&& 63).toNat + len.toNat) with hfull | hshort
  · exact update_full order h rfl hdata rfl hfull hfits
  · exact update_short order h rfl hdata rfl hshort

theorem update_eq_none (h : Absorbed context message) (hdata : len.toNat ≤ data.length)
    (hwrap : 2 ^ 32 ≤ message.length % 64 + len.toNat) : SHA1Update order context data len = none := by
  obtain ⟨j, hj⟩ : ∃ j, j = (context.count[0] >>> 3) &&& 63 := ⟨_, rfl⟩
  have hfilled : j.toNat = message.length % 64 := by
    rw [hj]
    exact h.filled
  have hlen := len.isLt
  have hthreshold : ¬ 63 < j + len := by
    rw [BitVec.lt_def, BitVec.toNat_add]
    change ¬ 63 < _
    omega
  have hlength : ((data.drop 0).take len.toNat).length = len.toNat := by
    rw [List.drop_zero, List.length_take]
    omega
  unfold SHA1Update
  simp only [← hj, hthreshold, ↓reduceIte]
  rw [read_eq (by omega)]
  dsimp only [Option.bind_eq_bind, Option.bind_some]
  rw [memcpy_eq_none (by omega)]
  rfl

/-- A context takes any bytes up to the point where the sum of 32 bits in its test would wrap around; from there on
the copy would leave the buffer. -/
theorem update_bounds (order : ByteOrder) (h : Absorbed context message) (hdata : len.toNat ≤ data.length) :
    (message.length % 64 + len.toNat < 2 ^ 32 → ∃ context', SHA1Update order context data len = some context' ∧
      Absorbed context' (message ++ data.take len.toNat)) ∧
    (2 ^ 32 ≤ message.length % 64 + len.toNat → SHA1Update order context data len = none) :=
  ⟨fun hfits => update_spec order h hdata hfits, fun hwrap => update_eq_none h hdata hwrap⟩

def blankCtx : Sha1Ctx := ⟨.replicate 5 0, .replicate 2 0, .replicate 64 0⟩

theorem update_bounds_abc : ∃ context, SHA1Update .little (SHA1Init blankCtx) (bytes "abc") 3 = some context ∧
    Absorbed context (bytes "abc") ∧
    SHA1Update .little context (List.replicate (2 ^ 32 - 1) 0) (BitVec.ofNat 32 (2 ^ 32 - 1)) = none := by
  obtain ⟨context, hupdate, habsorbed⟩ := (update_bounds .little (absorbed_init blankCtx)
    (show (3 : Word).toNat ≤ (bytes "abc").length by decide)).1 (by decide)
  refine ⟨context, hupdate, habsorbed, (update_bounds .little habsorbed ?_).2 (by decide)⟩
  rw [List.length_replicate]
  exact Nat.mod_le _ _

theorem update_byte (order : ByteOrder) (h : Absorbed context message) (c : UInt8) :
    ∃ context', SHA1Update order context [c] 1 = some context' ∧ Absorbed context' (message ++ [c]) := by
  have hmod := Nat.mod_lt message.length (show 0 < 64 by decide)
  have hone : (1 : Word).toNat ≤ [c].length := Nat.le_refl 1
  exact update_spec order h hone (by change message.length % 64 + 1 < 2 ^ 32; omega)

theorem Absorbed.mask (h : Absorbed context message) :
    context.count[0] &&& 504 = 448 ↔ message.length % 64 = 56 := by
  have hmask : ∀ i : ℕ, i &&& 504 = 8 * (i / 8 % 64) := by
    intro i
    have hsplit : i = 8 * (i / 8) + i % 8 := by omega
    apply Nat.eq_of_testBit_eq
    intro k
    have h504 : (504 : ℕ) = 2 ^ 3 * (2 ^ 6 - 1) := rfl
    have hleft : 8 * (i / 8 % 64) = 2 ^ 3 * (i / 2 ^ 3 % 2 ^ 6) := rfl
    rw [h504, hleft, Nat.testBit_and, Nat.testBit_two_pow_mul, Nat.testBit_two_pow_mul, Nat.testBit_two_pow_sub_one,
      Nat.testBit_mod_two_pow, Nat.testBit_div_two_pow]
    by_cases hk : 3 ≤ k
    · simp [hk, Bool.and_comm]
    · simp [hk]
  have hnat : (context.count[0] &&& 504).toNat = 8 * (message.length % 64) := by
    rw [BitVec.toNat_and, h.low]
    change _ &&& 504 = _
    rw [hmask]
    omega
  have h448 : (448 : Word).toNat = 448 := rfl
  rw [← BitVec.toNat_inj, hnat, h448]
  omega

theorem padZeros_spec (order : ByteOrder) {fuel : ℕ} (h : Absorbed context message) (hfuel : (56 + 64 - message.length % 64) % 64 < fuel) :
    ∃ context', padZeros order fuel context = some context' ∧
      Absorbed context' (message ++ List.replicate ((56 + 64 - message.length % 64) % 64) 0) := by
  induction fuel generalizing context message with
  | zero => omega
  | succ fuel ih =>
    unfold padZeros
    split_ifs with hmore
    · have hlength : message.length % 64 ≠ 56 := mt h.mask.mpr hmore
      obtain ⟨next, hnext, habsorbed⟩ := update_byte order h 0
      have hzeros : (56 + 64 - message.length % 64) % 64 =
          (56 + 64 - (message ++ [0]).length % 64) % 64 + 1 := by
        rw [List.length_append, List.length_singleton]
        omega
      obtain ⟨context', hrun, hend⟩ := ih habsorbed (by omega)
      refine ⟨context', ?_, ?_⟩
      · rw [hnext]
        exact hrun
      · rw [hzeros, List.replicate_succ]
        rwa [List.append_assoc, List.singleton_append] at hend
    · have hlength : message.length % 64 = 56 := h.mask.mp (not_not.mp hmore)
      refine ⟨context, rfl, ?_⟩
      rw [hlength]
      simpa using h

theorem shift_mask (w : Word) (k : ℕ) : ((w >>> k) &&& 255).setWidth 8 = w.extractLsb' k 8 := by
  apply BitVec.eq_of_getLsbD_eq
  intro i hi
  have hbyte : (255 : Word).getLsbD i = true := by interval_cases i <;> rfl
  rw [BitVec.getLsbD_setWidth, BitVec.getLsbD_and, BitVec.getLsbD_ushiftRight, BitVec.getLsbD_extractLsb', hbyte,
    Bool.and_true]

theorem shifted_byte {w : Word} {n : ℕ} (k : ℕ) (hk : k ≤ 24) (hw : w.toNat = n % 2 ^ 32) :
    UInt8.ofBitVec (((w >>> k) &&& 255).setWidth 8) = .ofNat (n / 2 ^ k) := by
  have hpow : 2 ^ 32 = 2 ^ k * 2 ^ (32 - k) := by
    rw [← Nat.pow_add]
    congr 1
    omega
  have hdvd : 2 ^ 8 ∣ 2 ^ (32 - k) := Nat.pow_dvd_pow 2 (by omega)
  apply UInt8.toNat_inj.mp
  rw [shift_mask, UInt8.toNat_ofNat']
  change (w.extractLsb' k 8).toNat = _
  rw [BitVec.extractLsb'_toNat, hw, Nat.shiftRight_eq_div_pow, hpow, Nat.mod_mul_right_div_self,
    Nat.mod_mod_of_dvd _ hdvd]

theorem finalcount_eq (h : Absorbed context message) : finalcount context.count = lengthBytes (8 * message.length) := by
  have hhigh : ∀ k ≤ 24, UInt8.ofBitVec (((context.count[1] >>> k) &&& 255).setWidth 8) =
      .ofNat (8 * message.length / 2 ^ (32 + k)) := by
    intro k hk
    rw [shifted_byte k hk h.high, Nat.div_div_eq_div_mul, ← Nat.pow_add]
  apply List.map_congr_left
  intro i hi
  have hlt : i < 8 := List.mem_range.mp hi
  interval_cases i
  · exact hhigh 24 (by decide)
  · exact hhigh 16 (by decide)
  · exact hhigh 8 (by decide)
  · exact hhigh 0 (by decide)
  · exact shifted_byte 24 (by decide) h.low
  · exact shifted_byte 16 (by decide) h.low
  · exact shifted_byte 8 (by decide) h.low
  · exact shifted_byte 0 (by decide) h.low

theorem digest_eq (state : Vector Word 5) :
    (List.range 20).map (fun i => UInt8.ofBitVec (((state[i >>> 2]! >>> ((3 - (i &&& 3)) * 8)) &&& 255).setWidth 8)) =
      digest (toVars state) := by
  simp only [shift_mask]
  rfl

theorem SHA1Final_spec (order : ByteOrder) (h : Absorbed context message) :
    SHA1Final order context = some (messageDigest message) := by
  obtain ⟨marked, hmark, hmarked⟩ := update_byte order h 128
  have hlength : (message ++ [128]).length = message.length + 1 := by rw [List.length_append, List.length_singleton]
  obtain ⟨padded, hpad, hpadded⟩ := padZeros_spec order hmarked (Nat.mod_lt _ (show 0 < 64 by decide))
  have hzeros : (56 + 64 - (message ++ [128]).length % 64) % 64 = (119 - message.length % 64) % 64 := by
    rw [hlength]
    omega
  rw [hzeros] at hpadded
  have height : (8 : Word).toNat ≤ (lengthBytes (8 * message.length)).length := Nat.le_refl 8
  obtain ⟨context', hend, habsorbed⟩ := update_spec order hpadded height (by
    have hmod := Nat.mod_lt (message ++ [128] ++ List.replicate ((119 - message.length % 64) % 64) 0).length
      (show 0 < 64 by decide)
    change _ + 8 < 2 ^ 32
    omega)
  have hall : message ++ [128] ++ List.replicate ((119 - message.length % 64) % 64) 0 ++
      (lengthBytes (8 * message.length)).take (8 : Word).toNat = message ++ padding message.length := by
    rw [List.take_of_length_le (Nat.le_refl 8), padding]
    simp
  rw [hall] at habsorbed
  unfold SHA1Final
  rw [finalcount_eq h, hmark]
  dsimp only [Option.bind_eq_bind, Option.bind_some]
  rw [hpad]
  dsimp only [Option.bind_eq_bind, Option.bind_some]
  rw [hend]
  dsimp only [Option.bind_eq_bind, Option.bind_some]
  rw [digest_eq, habsorbed.state, messageDigest]

def updates (order : ByteOrder) : List Bytes → Sha1Ctx → Option Sha1Ctx
  | [], context => some context
  | chunk :: chunks, context => do
    let context ← SHA1Update order context chunk (.ofNat 32 chunk.length)
    updates order chunks context

theorem updates_spec (order : ByteOrder) {chunks : List Bytes} (hchunks : ∀ chunk ∈ chunks, chunk.length + 63 < 2 ^ 32)
    (h : Absorbed context message) :
    ∃ context', updates order chunks context = some context' ∧ Absorbed context' (message ++ chunks.flatten) := by
  induction chunks generalizing context message with
  | nil =>
    refine ⟨context, rfl, ?_⟩
    rwa [List.flatten_nil, List.append_nil]
  | cons chunk chunks ih =>
    obtain ⟨hchunk, hrest⟩ := List.forall_mem_cons.mp hchunks
    have hmod := Nat.mod_lt message.length (show 0 < 64 by decide)
    have hlen : (BitVec.ofNat 32 chunk.length).toNat = chunk.length := by
      rw [BitVec.toNat_ofNat]
      exact Nat.mod_eq_of_lt (by omega)
    obtain ⟨next, hnext, habsorbed⟩ := update_spec order h (Nat.le_of_eq hlen) (by omega)
    rw [hlen, List.take_length] at habsorbed
    obtain ⟨context', hrun, hend⟩ := ih hrest habsorbed
    refine ⟨context', ?_, ?_⟩
    · unfold updates
      rw [hnext]
      exact hrun
    · rwa [List.flatten_cons, ← List.append_assoc]

/-- However a message is cut into parts, its digest is that of the standard, and no access is out of bounds. -/
theorem digest_of_parts (order : ByteOrder) (uninitialized : Sha1Ctx) {chunks : List Bytes}
    (hchunks : ∀ chunk ∈ chunks, chunk.length + 63 < 2 ^ 32) :
    (updates order chunks (SHA1Init uninitialized)).bind (SHA1Final order) = some (messageDigest chunks.flatten) := by
  obtain ⟨context, hrun, habsorbed⟩ := updates_spec order hchunks (absorbed_init uninitialized)
  rw [hrun, Option.bind_some]
  exact SHA1Final_spec order habsorbed

theorem digest_of_parts_two :
    (updates .big [bytes "ab", bytes "c"] (SHA1Init blankCtx)).bind (SHA1Final .big) =
      some (messageDigest (bytes "abc")) :=
  digest_of_parts .big blankCtx (show ∀ chunk ∈ [bytes "ab", bytes "c"], chunk.length + 63 < 2 ^ 32 by decide)

end

end VmodRedis.Sha1Stream
