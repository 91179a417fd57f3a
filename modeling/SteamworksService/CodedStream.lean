import SteamworksService.Numerals
import SteamworksService.Varints
import Mathlib.Tactic.IntervalCases

/-!
# Coded streams

How protobuf's coded streams write and read numbers in an array. The fast paths
are unrolled and look ahead in the buffer; they agree with the loops, and the
readers never leave the buffer (`readVarint64_eq`, `readVarint32_eq`).
-/
namespace SteamworksService.CodedStream
open Numerals Varints

/-! ## Writing -/

/-- The slow path of `WriteVarint32` and `WriteVarint64`. -/
def writeVarintSlow (value : UInt64) : List UInt8 :=
  if 0x7F < value then ((value.toUInt8 &&& 0x7F) ||| 0x80) :: writeVarintSlow (value >>> 7) else [value.toUInt8 &&& 0x7F]
termination_by value.toNat
decreasing_by
  rename_i large
  have above : 127 < value.toNat := UInt64.lt_iff_toNat_lt.mp large
  rw [UInt64.toNat_shiftRight, Nat.shiftRight_eq_div_pow]
  exact Nat.div_lt_self (by omega) (by decide)

/-- `target[size-1] &= 0x7F` behind the stores to `target[0]` to `target[size-1]`. -/
def clearLast (target : List UInt8) (size : ℕ) : List UInt8 := (target.take size).modify (size - 1) (· &&& 0x7F)

def writeVarint32FallbackToArray (value : UInt32) : List UInt8 :=
  let target := [(value ||| 0x80).toUInt8, (value >>> 7 ||| 0x80).toUInt8, (value >>> 14 ||| 0x80).toUInt8,
    (value >>> 21 ||| 0x80).toUInt8]
  if value.toNat ≥ 2 ^ 7 then
    if value.toNat ≥ 2 ^ 14 then
      if value.toNat ≥ 2 ^ 21 then
        if value.toNat ≥ 2 ^ 28 then target ++ [(value >>> 28).toUInt8]
        else clearLast target 4
      else clearLast target 3
    else clearLast target 2
  else clearLast target 1

def writeVarint32ToArray (value : UInt32) : List UInt8 :=
  if value.toNat < 0x80 then [value.toUInt8] else writeVarint32FallbackToArray value

def writeTagToArray (value : UInt32) : List UInt8 :=
  if value.toNat < 2 ^ 7 then [value.toUInt8]
  else if value.toNat < 2 ^ 14 then [(value ||| 0x80).toUInt8, (value >>> 7).toUInt8]
  else writeVarint32FallbackToArray value

/-- The search tree for the size of a 64-bit varint that is split into three parts. -/
def partsSize (part0 part1 part2 : UInt32) : ℕ :=
  if part2.toNat = 0 then
    if part1.toNat = 0 then
      if part0.toNat < 2 ^ 14 then
        if part0.toNat < 2 ^ 7 then 1 else 2
      else
        if part0.toNat < 2 ^ 21 then 3 else 4
    else
      if part1.toNat < 2 ^ 14 then
        if part1.toNat < 2 ^ 7 then 5 else 6
      else
        if part1.toNat < 2 ^ 21 then 7 else 8
  else
    if part2.toNat < 2 ^ 7 then 9 else 10

def writeVarint64ToArray (value : UInt64) : List UInt8 :=
  let part0 := value.toUInt32
  let part1 := (value >>> 28).toUInt32
  let part2 := (value >>> 56).toUInt32
  clearLast [(part0 ||| 0x80).toUInt8, (part0 >>> 7 ||| 0x80).toUInt8, (part0 >>> 14 ||| 0x80).toUInt8,
    (part0 >>> 21 ||| 0x80).toUInt8, (part1 ||| 0x80).toUInt8, (part1 >>> 7 ||| 0x80).toUInt8,
    (part1 >>> 14 ||| 0x80).toUInt8, (part1 >>> 21 ||| 0x80).toUInt8, (part2 ||| 0x80).toUInt8,
    (part2 >>> 7 ||| 0x80).toUInt8] (partsSize part0 part1 part2)

def writeVarint32SignExtendedToArray (value : Int32) : List UInt8 :=
  if value < 0 then writeVarint64ToArray value.toInt64.toUInt64 else writeVarint32ToArray value.toUInt32

def varintSize32 (value : UInt32) : ℕ :=
  if value.toNat < 2 ^ 7 then 1
  else if value.toNat < 2 ^ 14 then 2
  else if value.toNat < 2 ^ 21 then 3
  else if value.toNat < 2 ^ 28 then 4
  else 5

def varintSize64 (value : UInt64) : ℕ :=
  if value.toNat < 2 ^ 35 then
    if value.toNat < 2 ^ 7 then 1
    else if value.toNat < 2 ^ 14 then 2
    else if value.toNat < 2 ^ 21 then 3
    else if value.toNat < 2 ^ 28 then 4
    else 5
  else
    if value.toNat < 2 ^ 42 then 6
    else if value.toNat < 2 ^ 49 then 7
    else if value.toNat < 2 ^ 56 then 8
    else if value.toNat < 2 ^ 63 then 9
    else 10

def varintSize32SignExtended (value : Int32) : ℕ := if value < 0 then 10 else varintSize32 value.toUInt32

/-! ## Bytes of a word -/

theorem continued_byte (x : UInt32) : (x ||| 0x80).toUInt8 = UInt8.ofNat (x.toNat % 128 + 128) := by
  have every : ∀ n < 256, UInt8.ofNat n ||| 0x80 = UInt8.ofNat (n % 128 + 128) := by decide +kernel
  have byte : x.toUInt8 = UInt8.ofNat (x.toNat % 256) := by
    apply UInt8.toNat_inj.mp
    simp
  rw [UInt32.toUInt8_or, byte]
  have own := every (x.toNat % 256) (Nat.mod_lt _ (by norm_num))
  rw [Nat.mod_mod_of_dvd _ (by norm_num)] at own
  exact own

theorem last_byte (n : ℕ) (small : n < 128) : UInt8.ofNat (n % 128 + 128) &&& 0x7F = UInt8.ofNat n := by
  have every : ∀ n < 128, UInt8.ofNat (n % 128 + 128) &&& 0x7F = UInt8.ofNat n := by decide +kernel
  exact every n small

/-- The byte with the `i`-th digit of a number, for one that is not the last. -/
def digitByte (n i : ℕ) : UInt8 := UInt8.ofNat (n / 128 ^ i % 128 + 128)

/-- Clearing the high bit of the last byte makes a varint of the digits. -/
theorem clearLast_digits {k n : ℕ} (low : k = 0 ∨ 128 ^ k ≤ n) (high : n < 128 ^ (k + 1)) {target : List UInt8}
    (stored : target.take (k + 1) = (List.range (k + 1)).map (digitByte n)) : clearLast target (k + 1) = varint n := by
  have length : ((List.range k).map (digitByte n)).length = k := by simp
  have last : n / 128 ^ k < 128 := by
    rw [Nat.div_lt_iff_lt_mul (by positivity), ← pow_succ']
    exact high
  rw [clearLast, stored, List.range_succ, List.map_append, Nat.add_sub_cancel, varint_digits low high,
    List.modify_eq_take_drop, List.take_left' length, List.drop_left' length]
  simp only [List.map_cons, List.map_nil, List.modifyHead_cons]
  rw [digitByte, last_byte _ last]
  rfl

theorem parts_toNat (value : UInt64) : value.toUInt32.toNat = value.toNat % 2 ^ 32 ∧
    (value >>> 28).toUInt32.toNat = value.toNat / 2 ^ 28 % 2 ^ 32 ∧
    (value >>> 56).toUInt32.toNat = value.toNat / 2 ^ 56 % 2 ^ 32 := by
  refine ⟨UInt64.toNat_toUInt32 value, ?_, ?_⟩
  · rw [UInt64.toNat_toUInt32, UInt64.toNat_shiftRight, Nat.shiftRight_eq_div_pow]
    rfl
  · rw [UInt64.toNat_toUInt32, UInt64.toNat_shiftRight, Nat.shiftRight_eq_div_pow]
    rfl

theorem parts_digits (value : UInt64) :
    [(value.toUInt32 ||| 0x80).toUInt8, (value.toUInt32 >>> 7 ||| 0x80).toUInt8,
      (value.toUInt32 >>> 14 ||| 0x80).toUInt8, (value.toUInt32 >>> 21 ||| 0x80).toUInt8,
      ((value >>> 28).toUInt32 ||| 0x80).toUInt8, ((value >>> 28).toUInt32 >>> 7 ||| 0x80).toUInt8,
      ((value >>> 28).toUInt32 >>> 14 ||| 0x80).toUInt8, ((value >>> 28).toUInt32 >>> 21 ||| 0x80).toUInt8,
      ((value >>> 56).toUInt32 ||| 0x80).toUInt8, ((value >>> 56).toUInt32 >>> 7 ||| 0x80).toUInt8] =
    (List.range 10).map (digitByte value.toNat) := by
  obtain ⟨part0, part1, part2⟩ := parts_toNat value
  have byte : ∀ {m i : ℕ}, m % 128 = value.toNat / 128 ^ i % 128 →
      UInt8.ofNat (m % 128 + 128) = digitByte value.toNat i := by
    intro m i same
    rw [digitByte, same]
  show _ = [digitByte value.toNat 0, digitByte value.toNat 1, digitByte value.toNat 2, digitByte value.toNat 3,
    digitByte value.toNat 4, digitByte value.toNat 5, digitByte value.toNat 6, digitByte value.toNat 7,
    digitByte value.toNat 8, digitByte value.toNat 9]
  simp only [continued_byte, UInt32.toNat_shiftRight, Nat.shiftRight_eq_div_pow, part0, part1, part2,
    UInt32.reduceToNat, Nat.reduceMod, List.cons.injEq, and_true]
  refine ⟨byte ?_, byte ?_, byte ?_, byte ?_, byte ?_, byte ?_, byte ?_, byte ?_, byte ?_, byte ?_⟩ <;> omega

/-- What the search tree finds is the number of digits. -/
theorem partsSize_spec (value : UInt64) : ∃ k < 10,
    partsSize value.toUInt32 (value >>> 28).toUInt32 (value >>> 56).toUInt32 = k + 1 ∧
      (k = 0 ∨ 128 ^ k ≤ value.toNat) ∧ value.toNat < 128 ^ (k + 1) := by
  have bound := value.toNat_lt
  obtain ⟨part0, part1, part2⟩ := parts_toNat value
  rw [partsSize, part0, part1, part2]
  split_ifs
  · exact ⟨0, by omega, rfl, by omega, by omega⟩
  · exact ⟨1, by omega, rfl, by omega, by omega⟩
  · exact ⟨2, by omega, rfl, by omega, by omega⟩
  · exact ⟨3, by omega, rfl, by omega, by omega⟩
  · exact ⟨4, by omega, rfl, by omega, by omega⟩
  · exact ⟨5, by omega, rfl, by omega, by omega⟩
  · exact ⟨6, by omega, rfl, by omega, by omega⟩
  · exact ⟨7, by omega, rfl, by omega, by omega⟩
  · exact ⟨8, by omega, rfl, by omega, by omega⟩
  · exact ⟨9, by omega, rfl, by omega, by omega⟩

theorem writeVarint64ToArray_eq (value : UInt64) : writeVarint64ToArray value = varint value.toNat := by
  obtain ⟨k, below, size, low, high⟩ := partsSize_spec value
  simp only [writeVarint64ToArray, size, parts_digits]
  apply clearLast_digits low high
  rw [← List.map_take, List.take_range, Nat.min_eq_left (by omega)]

theorem writeVarintSlow_eq (value : UInt64) : writeVarintSlow value = varint value.toNat := by
  have every : ∀ n < 256, (UInt8.ofNat n &&& 0x7F) ||| 0x80 = UInt8.ofNat (n % 128 + 128) := by decide +kernel
  have plain : ∀ n < 128, UInt8.ofNat n &&& 0x7F = UInt8.ofNat n := by decide +kernel
  induction value using writeVarintSlow.induct with
  | case1 value large ih =>
    have above : 127 < value.toNat := UInt64.lt_iff_toNat_lt.mp large
    have byte : value.toUInt8 = UInt8.ofNat (value.toNat % 256) := by
      apply UInt8.toNat_inj.mp
      simp
    have own := every (value.toNat % 256) (Nat.mod_lt _ (by norm_num))
    rw [Nat.mod_mod_of_dvd _ (by norm_num)] at own
    have rest : (value >>> 7).toNat = value.toNat / 128 := by
      rw [UInt64.toNat_shiftRight, Nat.shiftRight_eq_div_pow]
      rfl
    rw [writeVarintSlow, if_pos large, ih, rest, byte, own, varint_large above]
  | case2 value small =>
    have below : value.toNat < 128 := by
      have above : ¬ 127 < value.toNat := fun more => small (UInt64.lt_iff_toNat_lt.mpr more)
      omega
    have byte : value.toUInt8 = UInt8.ofNat value.toNat := by
      apply UInt8.toNat_inj.mp
      simp
    rw [writeVarintSlow, if_neg small, byte, plain _ below, varint_small below]

theorem writeVarint32FallbackToArray_eq (value : UInt32) : writeVarint32FallbackToArray value = varint value.toNat := by
  have bound := value.toNat_lt
  have stored : [(value ||| 0x80).toUInt8, (value >>> 7 ||| 0x80).toUInt8, (value >>> 14 ||| 0x80).toUInt8,
      (value >>> 21 ||| 0x80).toUInt8] = (List.range 4).map (digitByte value.toNat) := by
    show _ = [digitByte value.toNat 0, digitByte value.toNat 1, digitByte value.toNat 2, digitByte value.toNat 3]
    simp only [continued_byte, UInt32.toNat_shiftRight, Nat.shiftRight_eq_div_pow, UInt32.reduceToNat, Nat.reduceMod,
      digitByte, pow_zero, Nat.div_one]
    rfl
  have prefix_stored : ∀ k < 4, ((List.range 4).map (digitByte value.toNat)).take (k + 1) =
      (List.range (k + 1)).map (digitByte value.toNat) := by
    intro k below
    rw [← List.map_take, List.take_range, Nat.min_eq_left (by omega)]
  rw [writeVarint32FallbackToArray]
  simp only [stored]
  split_ifs
  · have last : (value >>> 28).toUInt8 = UInt8.ofNat (value.toNat / 128 ^ 4) := by
      apply UInt8.toNat_inj.mp
      rw [UInt32.toNat_toUInt8, UInt32.toNat_shiftRight, Nat.shiftRight_eq_div_pow, UInt8.toNat_ofNat']
      rfl
    rw [last, varint_digits (k := 4) (by omega) (by omega)]
    rfl
  · exact clearLast_digits (k := 3) (by omega) (by omega) (prefix_stored 3 (by norm_num))
  · exact clearLast_digits (k := 2) (by omega) (by omega) (prefix_stored 2 (by norm_num))
  · exact clearLast_digits (k := 1) (by omega) (by omega) (prefix_stored 1 (by norm_num))
  · exact clearLast_digits (k := 0) (by omega) (by omega) (prefix_stored 0 (by norm_num))

theorem low_byte (value : UInt32) : value.toUInt8 = UInt8.ofNat value.toNat := by
  apply UInt8.toNat_inj.mp
  simp

theorem writeVarint32ToArray_eq (value : UInt32) : writeVarint32ToArray value = varint value.toNat := by
  rw [writeVarint32ToArray]
  split_ifs with small
  · rw [varint_small small, low_byte]
  · exact writeVarint32FallbackToArray_eq value

theorem writeTagToArray_eq (value : UInt32) : writeTagToArray value = varint value.toNat := by
  rw [writeTagToArray]
  split_ifs with one two
  · rw [varint_small one, low_byte]
  · have last : (value >>> 7).toUInt8 = UInt8.ofNat (value.toNat / 128) := by
      rw [low_byte, UInt32.toNat_shiftRight, Nat.shiftRight_eq_div_pow]
      rfl
    rw [varint_large (by omega), varint_small (by omega), continued_byte, last]
  · exact writeVarint32FallbackToArray_eq value

/-! ## Sizes -/

theorem length_varint {k n : ℕ} (low : k = 0 ∨ 128 ^ k ≤ n) (high : n < 128 ^ (k + 1)) : (varint n).length = k + 1 := by
  rw [varint_digits low high]
  simp

theorem varintSize32_eq (value : UInt32) : varintSize32 value = (varint value.toNat).length := by
  have bound := value.toNat_lt
  rw [varintSize32]
  split_ifs
  · exact (length_varint (k := 0) (by omega) (by omega)).symm
  · exact (length_varint (k := 1) (by omega) (by omega)).symm
  · exact (length_varint (k := 2) (by omega) (by omega)).symm
  · exact (length_varint (k := 3) (by omega) (by omega)).symm
  · exact (length_varint (k := 4) (by omega) (by omega)).symm

theorem varintSize64_eq (value : UInt64) : varintSize64 value = (varint value.toNat).length := by
  have bound := value.toNat_lt
  rw [varintSize64]
  split_ifs
  · exact (length_varint (k := 0) (by omega) (by omega)).symm
  · exact (length_varint (k := 1) (by omega) (by omega)).symm
  · exact (length_varint (k := 2) (by omega) (by omega)).symm
  · exact (length_varint (k := 3) (by omega) (by omega)).symm
  · exact (length_varint (k := 4) (by omega) (by omega)).symm
  · exact (length_varint (k := 5) (by omega) (by omega)).symm
  · exact (length_varint (k := 6) (by omega) (by omega)).symm
  · exact (length_varint (k := 7) (by omega) (by omega)).symm
  · exact (length_varint (k := 8) (by omega) (by omega)).symm
  · exact (length_varint (k := 9) (by omega) (by omega)).symm

/-! ## Reading -/

/-- Why there is no value: the function has returned `false`, or it has read
    behind the end of the buffer. -/
inductive Failure
  | refused
  | outside
  deriving DecidableEq, Repr

/-- For each line `b = *(ptr++)`, the line itself and `if (!(b & 0x80)) goto done`.
    Behind the last line the varint is corrupt. -/
def readLines {σ : Type} : List (σ → UInt32 → σ) → σ → List UInt8 → Except Failure (σ × List UInt8)
  | [], _, _ => .error .refused
  | _ :: _, _, [] => .error .outside
  | line :: lines, s, b :: ptr =>
    let s := line s b.toUInt32
    if b &&& 0x80 = 0 then .ok (s, ptr) else readLines lines s ptr

def varint32Lines : List (UInt32 → UInt32 → UInt32) :=
  [fun _ b => b &&& 0x7F,
    fun result b => result ||| (b &&& 0x7F) <<< 7,
    fun result b => result ||| (b &&& 0x7F) <<< 14,
    fun result b => result ||| (b &&& 0x7F) <<< 21,
    fun result b => result ||| b <<< 28,
    -- the high-order bits are discarded
    fun result _ => result, fun result _ => result, fun result _ => result, fun result _ => result,
    fun result _ => result]

def readVarint32FromArray (buffer : List UInt8) : Except Failure (UInt32 × List UInt8) :=
  readLines varint32Lines 0 buffer

structure Parts where
  part0 : UInt32
  part1 : UInt32
  part2 : UInt32

def Parts.value (p : Parts) : UInt64 := p.part0.toUInt64 ||| p.part1.toUInt64 <<< 28 ||| p.part2.toUInt64 <<< 56

def varint64Lines : List (Parts → UInt32 → Parts) :=
  [fun p b => { p with part0 := b &&& 0x7F },
    fun p b => { p with part0 := p.part0 ||| (b &&& 0x7F) <<< 7 },
    fun p b => { p with part0 := p.part0 ||| (b &&& 0x7F) <<< 14 },
    fun p b => { p with part0 := p.part0 ||| (b &&& 0x7F) <<< 21 },
    fun p b => { p with part1 := b &&& 0x7F },
    fun p b => { p with part1 := p.part1 ||| (b &&& 0x7F) <<< 7 },
    fun p b => { p with part1 := p.part1 ||| (b &&& 0x7F) <<< 14 },
    fun p b => { p with part1 := p.part1 ||| (b &&& 0x7F) <<< 21 },
    fun p b => { p with part2 := b &&& 0x7F },
    fun p b => { p with part2 := p.part2 ||| (b &&& 0x7F) <<< 7 }]

def readVarint64FromArray (buffer : List UInt8) : Except Failure (UInt64 × List UInt8) :=
  (readLines varint64Lines ⟨0, 0, 0⟩ buffer).map (fun r => (r.1.value, r.2))

/-- The test for the fast paths: there are `kMaxVarintBytes` bytes, or the last
    byte ends a varint. -/
def fastPath (buffer : List UInt8) : Bool :=
  10 ≤ buffer.length || buffer.getLast?.any (fun b => b &&& 0x80 = 0)

/-- The loop of `ReadVarint64Slow`, after `count` bytes. -/
def readVarint64Slow (count : ℕ) (result : UInt64) : List UInt8 → Except Failure (UInt64 × List UInt8)
  | [] => .error .refused
  | b :: buffer =>
    if count = 10 then .error .refused
    else
      let result := result ||| (b &&& 0x7F).toUInt64 <<< UInt64.ofNat (7 * count)
      if b &&& 0x80 ≠ 0 then readVarint64Slow (count + 1) result buffer else .ok (result, buffer)

def readVarint64Fallback (buffer : List UInt8) : Except Failure (UInt64 × List UInt8) :=
  if fastPath buffer then readVarint64FromArray buffer else readVarint64Slow 0 0 buffer

def readVarint64 : List UInt8 → Except Failure (UInt64 × List UInt8)
  | b :: buffer => if b < 0x80 then .ok (b.toUInt64, buffer) else readVarint64Fallback (b :: buffer)
  | [] => readVarint64Fallback []

def readVarint32Fallback (buffer : List UInt8) : Except Failure (UInt32 × List UInt8) :=
  if fastPath buffer then readVarint32FromArray buffer
  else (readVarint64Fallback buffer).map (fun r => (r.1.toUInt32, r.2))

def readVarint32 : List UInt8 → Except Failure (UInt32 × List UInt8)
  | b :: buffer => if b < 0x80 then .ok (b.toUInt32, buffer) else readVarint32Fallback (b :: buffer)
  | [] => readVarint32Fallback []

/-- `return 0` where a tag cannot be read, with what is left in the buffer. -/
def zeroTag (left : List UInt8) : Except Failure (UInt32 × List UInt8) → Except Failure (UInt32 × List UInt8)
  | .error .refused => .ok (0, left)
  | r => r

/-- The fast path advances only behind a varint. The slow path, which is there for
    less than ten bytes, fails when it has consumed all of them. -/
def readTagFallback (buffer : List UInt8) : Except Failure (UInt32 × List UInt8) :=
  if fastPath buffer then zeroTag buffer (readVarint32FromArray buffer)
  else zeroTag [] ((readVarint64 buffer).map (fun r => (r.1.toUInt32, r.2)))

def readTag : List UInt8 → Except Failure (UInt32 × List UInt8)
  | b :: buffer => if b < 0x80 then .ok (b.toUInt32, buffer) else readTagFallback (b :: buffer)
  | [] => readTagFallback []

/-! ## The readers agree -/

/-- A number that was read, or `false`. -/
def found {α : Type} (f : ℕ → α) : Option (ℕ × List UInt8) → Except Failure (α × List UInt8)
  | some (n, rest) => .ok (f n, rest)
  | none => .error .refused

theorem high_clear (b : UInt8) : b &&& 0x80 = 0 ↔ b.toNat < 128 := by
  have every : ∀ n < 256, UInt8.ofNat n &&& 0x80 = 0 ↔ n < 128 := by decide +kernel
  have own := every b.toNat b.toNat_lt
  rwa [UInt8.ofNat_toNat] at own

theorem fastPath_ends {buffer : List UInt8} (fast : fastPath buffer = true) :
    10 ≤ buffer.length ∨ ∃ b ∈ buffer, b.toNat < 128 := by
  rw [fastPath, Bool.or_eq_true] at fast
  rcases fast with long | ends
  · exact .inl (of_decide_eq_true long)
  · obtain ⟨b, last, clear⟩ := (Option.any_eq_true _ _).mp ends
    exact .inr ⟨b, List.mem_of_getLast? last, (high_clear b).mp (of_decide_eq_true clear)⟩

section
variable {σ α : Type} {lines : List (σ → UInt32 → σ)} {R : ℕ → σ → ℕ → Prop} {finish : σ → α} {f : ℕ → α}

/-- If every line adds its digit to what the lines before it stand for, the lines
    read a number and do not leave the buffer. -/
theorem readLines_eq
    (adds : ∀ (count : ℕ) (below : count < lines.length) (s : σ) (r : ℕ), R count s r → ∀ b : UInt8,
      R (count + 1) (lines[count] s b.toUInt32) (r + b.toNat % 128 * 128 ^ count))
    (ends : ∀ count s r, R count s r → finish s = f r) {buffer : List UInt8} {count : ℕ} {s : σ} {r : ℕ}
    (few : count ≤ lines.length) (stands : R count s r)
    (inside : lines.length - count ≤ buffer.length ∨ ∃ b ∈ buffer, b.toNat < 128) :
    (readLines (lines.drop count) s buffer).map (fun p => (finish p.1, p.2)) =
      found f ((Varints.read (lines.length - count) buffer).map (fun p => (r + 128 ^ count * p.1, p.2))) := by
  induction buffer generalizing count s r with
  | nil =>
    have past : count = lines.length := by
      rcases inside with long | ⟨_, member, _⟩
      · rw [List.length_nil] at long
        omega
      · cases member
    subst past
    rw [List.drop_length, Nat.sub_self]
    rfl
  | cons b buffer ih =>
    by_cases past : count = lines.length
    · subst past
      rw [List.drop_length, Nat.sub_self]
      rfl
    · have below : count < lines.length := by omega
      have next := adds count below s r stands b
      have more : lines.length - count = lines.length - (count + 1) + 1 := by omega
      rw [List.drop_eq_getElem_cons below, readLines, more, Varints.read]
      by_cases last : b.toNat < 128
      · rw [if_pos ((high_clear b).mpr last), if_pos last]
        rw [Nat.mod_eq_of_lt last] at next
        simp [found, Except.map, ends _ _ _ next, Nat.mul_comm]
      · have inside' : lines.length - (count + 1) ≤ buffer.length ∨ ∃ c ∈ buffer, c.toNat < 128 := by
          rcases inside with long | ⟨c, member, small⟩
          · left
            rw [List.length_cons] at long
            omega
          · right
            rcases List.mem_cons.mp member with rfl | member
            · exact absurd small last
            · exact ⟨c, member, small⟩
        rw [if_neg (fun clear => last ((high_clear b).mp clear)), if_neg last, ih (by omega) next inside']
        rw [Option.map_map]
        congr 2
        funext p
        simp only [Function.comp_apply, Prod.mk.injEq, and_true]
        ring

end

theorem or_shift (x y k : ℕ) (below : x < 2 ^ k) : x ||| y <<< k = x + y * 2 ^ k := by
  rw [Nat.shiftLeft_eq, Nat.or_comm, Nat.mul_comm, ← Nat.two_pow_add_eq_or_of_lt below, Nat.add_comm]

theorem or_shift32 (x y : UInt32) {k : ℕ} (few : k < 32) (below : x.toNat < 2 ^ k) :
    (x ||| y <<< UInt32.ofNat k).toNat = (x.toNat + y.toNat * 2 ^ k) % 2 ^ 32 := by
  rw [UInt32.toNat_or, UInt32.toNat_shiftLeft, UInt32.toNat_ofNat', Nat.mod_eq_of_lt (show k < 2 ^ 32 by omega),
    Nat.mod_eq_of_lt few, ← or_shift _ _ _ below, Nat.or_mod_two_pow, Nat.mod_eq_of_lt x.toNat_lt]

theorem or_shift64 (x y : UInt64) {k : ℕ} (few : k < 64) (below : x.toNat < 2 ^ k) :
    (x ||| y <<< UInt64.ofNat k).toNat = (x.toNat + y.toNat * 2 ^ k) % 2 ^ 64 := by
  rw [UInt64.toNat_or, UInt64.toNat_shiftLeft, UInt64.toNat_ofNat', Nat.mod_eq_of_lt (show k < 2 ^ 64 by omega),
    Nat.mod_eq_of_lt few, ← or_shift _ _ _ below, Nat.or_mod_two_pow, Nat.mod_eq_of_lt x.toNat_lt]

theorem low_bits (b : UInt8) : (b.toUInt32 &&& 0x7F).toNat = b.toNat % 128 := by
  rw [UInt32.toNat_and, UInt8.toNat_toUInt32]
  exact Nat.and_two_pow_sub_one_eq_mod b.toNat 7

/-- The parts hold the lower digits, four in each of the first two. -/
structure Parts.Hold (count : ℕ) (p : Parts) (r : ℕ) : Prop where
  below : r < 128 ^ count
  part0 : p.part0.toNat = r % 2 ^ 28
  part1 : p.part1.toNat = r / 2 ^ 28 % 2 ^ 28
  part2 : p.part2.toNat = r / 2 ^ 56

theorem Parts.Hold.add (count : ℕ) (below : count < varint64Lines.length) (p : Parts) (r : ℕ) (holds : p.Hold count r)
    (b : UInt8) : (varint64Lines[count] p b.toUInt32).Hold (count + 1) (r + b.toNat % 128 * 128 ^ count) := by
  obtain ⟨bound, part0, part1, part2⟩ := holds
  have digit : b.toNat % 128 < 128 := Nat.mod_lt _ (by norm_num)
  have plain := low_bits b
  -- a line that shifts its digit into a part
  have shifted : ∀ (x : UInt32) (k : ℕ), k ≤ 21 → x.toNat < 2 ^ k →
      (x ||| (b.toUInt32 &&& 0x7F) <<< UInt32.ofNat k).toNat = x.toNat + b.toNat % 128 * 2 ^ k := by
    intro x k few small
    have fits : (b.toNat % 128 + 1) * 2 ^ k ≤ 128 * 2 ^ 21 :=
      Nat.mul_le_mul (by omega) (Nat.pow_le_pow_right (by norm_num) few)
    rw [or_shift32 _ _ (by omega) small, plain, Nat.mod_eq_of_lt]
    rw [Nat.add_mul] at fits
    omega
  simp only [varint64Lines, List.length_cons, List.length_nil] at below
  interval_cases count
  · exact ⟨by omega, plain.trans (by omega), part1.trans (by omega), part2.trans (by omega)⟩
  · exact ⟨by omega, (shifted p.part0 7 (by norm_num) (by omega)).trans (by omega), part1.trans (by omega),
      part2.trans (by omega)⟩
  · exact ⟨by omega, (shifted p.part0 14 (by norm_num) (by omega)).trans (by omega), part1.trans (by omega),
      part2.trans (by omega)⟩
  · exact ⟨by omega, (shifted p.part0 21 (by norm_num) (by omega)).trans (by omega), part1.trans (by omega),
      part2.trans (by omega)⟩
  · exact ⟨by omega, part0.trans (by omega), plain.trans (by omega), part2.trans (by omega)⟩
  · exact ⟨by omega, part0.trans (by omega), (shifted p.part1 7 (by norm_num) (by omega)).trans (by omega),
      part2.trans (by omega)⟩
  · exact ⟨by omega, part0.trans (by omega), (shifted p.part1 14 (by norm_num) (by omega)).trans (by omega),
      part2.trans (by omega)⟩
  · exact ⟨by omega, part0.trans (by omega), (shifted p.part1 21 (by norm_num) (by omega)).trans (by omega),
      part2.trans (by omega)⟩
  · exact ⟨by omega, part0.trans (by omega), part1.trans (by omega), plain.trans (by omega)⟩
  · exact ⟨by omega, part0.trans (by omega), part1.trans (by omega),
      (shifted p.part2 7 (by norm_num) (by omega)).trans (by omega)⟩

theorem Parts.Hold.value {count : ℕ} {p : Parts} {r : ℕ} (holds : p.Hold count r) : p.value = UInt64.ofNat r := by
  obtain ⟨_, part0, part1, part2⟩ := holds
  have word := p.part2.toNat_lt
  have wide : ∀ x : UInt32, x.toUInt64.toNat = x.toNat := fun x => UInt32.toNat_toUInt64 x
  have first := or_shift64 p.part0.toUInt64 p.part1.toUInt64 (k := 28) (by norm_num) (by rw [wide]; omega)
  rw [wide, wide, Nat.mod_eq_of_lt (by omega)] at first
  have second := or_shift64 (p.part0.toUInt64 ||| p.part1.toUInt64 <<< 28) p.part2.toUInt64 (k := 56) (by norm_num)
    (lt_of_eq_of_lt first (by omega))
  apply UInt64.toNat_inj.mp
  rw [UInt64.toNat_ofNat']
  refine second.trans ?_
  rw [wide, show (p.part0.toUInt64 ||| p.part1.toUInt64 <<< 28).toNat = _ from first]
  omega

theorem readVarint64FromArray_eq {buffer : List UInt8} (fast : fastPath buffer = true) :
    readVarint64FromArray buffer = found UInt64.ofNat (Varints.read 10 buffer) := by
  have none : (⟨0, 0, 0⟩ : Parts).Hold 0 0 := ⟨by norm_num, rfl, rfl, rfl⟩
  have lines := readLines_eq Parts.Hold.add (fun _ _ _ holds => holds.value) (Nat.zero_le _) none (fastPath_ends fast)
  simpa [readVarint64FromArray, varint64Lines] using lines

/-- The word holds the digits that fit into it. -/
structure Holds32 (count : ℕ) (result : UInt32) (r : ℕ) : Prop where
  below : r < 128 ^ count
  word : result.toNat = r % 2 ^ 32

theorem Holds32.add (count : ℕ) (below : count < varint32Lines.length) (result : UInt32) (r : ℕ)
    (holds : Holds32 count result r) (b : UInt8) :
    Holds32 (count + 1) (varint32Lines[count] result b.toUInt32) (r + b.toNat % 128 * 128 ^ count) := by
  obtain ⟨bound, word⟩ := holds
  have digit : b.toNat % 128 < 128 := Nat.mod_lt _ (by norm_num)
  have plain := low_bits b
  have whole : b.toUInt32.toNat = b.toNat := UInt8.toNat_toUInt32 b
  simp only [varint32Lines, List.length_cons, List.length_nil] at below
  interval_cases count
  · exact ⟨by omega, plain.trans (by omega)⟩
  · exact ⟨by omega, (or_shift32 result _ (k := 7) (by norm_num) (by omega)).trans (by rw [plain]; omega)⟩
  · exact ⟨by omega, (or_shift32 result _ (k := 14) (by norm_num) (by omega)).trans (by rw [plain]; omega)⟩
  · exact ⟨by omega, (or_shift32 result _ (k := 21) (by norm_num) (by omega)).trans (by rw [plain]; omega)⟩
  · exact ⟨by omega, (or_shift32 result _ (k := 28) (by norm_num) (by omega)).trans (by rw [whole]; omega)⟩
  · exact ⟨by omega, word.trans (by omega)⟩
  · exact ⟨by omega, word.trans (by omega)⟩
  · exact ⟨by omega, word.trans (by omega)⟩
  · exact ⟨by omega, word.trans (by omega)⟩
  · exact ⟨by omega, word.trans (by omega)⟩

theorem Holds32.value {count : ℕ} {result : UInt32} {r : ℕ} (holds : Holds32 count result r) : result = UInt32.ofNat r := by
  apply UInt32.toNat_inj.mp
  rw [UInt32.toNat_ofNat', holds.word]

theorem readVarint32FromArray_eq {buffer : List UInt8} (fast : fastPath buffer = true) :
    readVarint32FromArray buffer = found UInt32.ofNat (Varints.read 10 buffer) := by
  have none : Holds32 0 0 0 := ⟨by norm_num, rfl⟩
  have ends : ∀ count result r, Holds32 count result r → id result = UInt32.ofNat r := fun _ _ _ holds => holds.value
  have lines := readLines_eq Holds32.add ends (Nat.zero_le _) none (fastPath_ends fast)
  rw [show (fun p : UInt32 × List UInt8 => (id p.1, p.2)) = id from rfl, Except.map_id, id] at lines
  simpa [readVarint32FromArray, varint32Lines] using lines

theorem readVarint64Slow_eq {buffer : List UInt8} {count r : ℕ} (few : count ≤ 10) (below : r < 128 ^ count) :
    readVarint64Slow count (UInt64.ofNat r) buffer =
      found UInt64.ofNat ((Varints.read (10 - count) buffer).map (fun p => (r + 128 ^ count * p.1, p.2))) := by
  induction buffer generalizing count r with
  | nil =>
    cases left : 10 - count with
    | zero => rfl
    | succ left => rfl
  | cons b buffer ih =>
    rw [readVarint64Slow]
    by_cases past : count = 10
    · subst past
      rfl
    · rw [if_neg past]
      have more : 10 - count = 10 - (count + 1) + 1 := by omega
      have digit : b.toNat % 128 < 128 := Nat.mod_lt _ (by norm_num)
      have power : 128 ^ count = 2 ^ (7 * count) := by
        rw [pow_mul]
        norm_num
      have large : 128 ^ count ≤ 128 ^ 9 := Nat.pow_le_pow_right (by norm_num) (by omega)
      have plain : (b &&& 0x7F).toUInt64.toNat = b.toNat % 128 := by
        rw [UInt8.toNat_toUInt64, UInt8.toNat_and]
        exact Nat.and_two_pow_sub_one_eq_mod b.toNat 7
      have word : (UInt64.ofNat r).toNat = r := by
        rw [UInt64.toNat_ofNat']
        omega
      have next : UInt64.ofNat r ||| (b &&& 0x7F).toUInt64 <<< UInt64.ofNat (7 * count) =
          UInt64.ofNat (r + b.toNat % 128 * 128 ^ count) := by
        apply UInt64.toNat_inj.mp
        rw [or_shift64 _ _ (by omega) (by rw [word]; omega), word, plain, UInt64.toNat_ofNat', power]
      have above : r + b.toNat % 128 * 128 ^ count < 128 ^ (count + 1) := by
        have most : (b.toNat % 128 + 1) * 128 ^ count ≤ 128 * 128 ^ count := Nat.mul_le_mul_right _ (by omega)
        rw [pow_succ, Nat.mul_comm _ 128]
        rw [Nat.add_mul] at most
        omega
      rw [more, Varints.read]
      simp only [next]
      by_cases last : b.toNat < 128
      · rw [if_neg (not_not.mpr ((high_clear b).mpr last)), if_pos last, Nat.mod_eq_of_lt last]
        simp [found, Nat.mul_comm]
      · rw [if_pos (fun clear => last ((high_clear b).mp clear)), if_neg last, ih (by omega) above, Option.map_map]
        congr 2
        funext p
        simp only [Function.comp_apply, Prod.mk.injEq, and_true]
        ring

theorem found_map {α β : Type} (f : ℕ → α) (g : α → β) (r : Option (ℕ × List UInt8)) :
    (found f r).map (fun p => (g p.1, p.2)) = found (fun n => g (f n)) r := by
  cases r <;> rfl

theorem read_one {b : UInt8} (small : b < 0x80) (buffer : List UInt8) :
    Varints.read 10 (b :: buffer) = some (b.toNat, buffer) := by
  have below : b.toNat < 128 := UInt8.lt_iff_toNat_lt.mp small
  rw [Varints.read, if_pos below]

theorem narrow (n : ℕ) : (UInt64.ofNat n).toUInt32 = UInt32.ofNat n := by
  apply UInt32.toNat_inj.mp
  rw [UInt64.toNat_toUInt32, UInt64.toNat_ofNat', UInt32.toNat_ofNat']
  omega

theorem slow_eq (buffer : List UInt8) : readVarint64Slow 0 0 buffer = found UInt64.ofNat (Varints.read 10 buffer) := by
  have slow := @readVarint64Slow_eq buffer 0 0 (Nat.zero_le 10) (by norm_num)
  simpa using slow

theorem readVarint64Fallback_eq (buffer : List UInt8) :
    readVarint64Fallback buffer = found UInt64.ofNat (Varints.read 10 buffer) := by
  rw [readVarint64Fallback]
  split_ifs with fast
  · exact readVarint64FromArray_eq fast
  · exact slow_eq buffer

/-- Whatever the buffer holds, a varint is read within it, and on every path it
    is the same. -/
theorem readVarint64_eq (buffer : List UInt8) : readVarint64 buffer = found UInt64.ofNat (Varints.read 10 buffer) := by
  cases buffer with
  | nil => exact readVarint64Fallback_eq []
  | cons b buffer =>
    rw [readVarint64]
    split_ifs with small
    · rw [read_one small, found, UInt64.ofNat_uInt8ToNat]
    · exact readVarint64Fallback_eq _

theorem readVarint32Fallback_eq (buffer : List UInt8) :
    readVarint32Fallback buffer = found UInt32.ofNat (Varints.read 10 buffer) := by
  rw [readVarint32Fallback]
  split_ifs with fast
  · exact readVarint32FromArray_eq fast
  · rw [readVarint64Fallback_eq, found_map]
    simp only [narrow]

theorem readVarint32_eq (buffer : List UInt8) : readVarint32 buffer = found UInt32.ofNat (Varints.read 10 buffer) := by
  cases buffer with
  | nil => exact readVarint32Fallback_eq []
  | cons b buffer =>
    rw [readVarint32]
    split_ifs with small
    · rw [read_one small, found, UInt32.ofNat_uInt8ToNat]
    · exact readVarint32Fallback_eq _

theorem readTag_eq (buffer : List UInt8) : readTag buffer =
    zeroTag (if fastPath buffer then buffer else []) (found UInt32.ofNat (Varints.read 10 buffer)) := by
  have fallback : ∀ buffer, readTagFallback buffer =
      zeroTag (if fastPath buffer then buffer else []) (found UInt32.ofNat (Varints.read 10 buffer)) := by
    intro buffer
    rw [readTagFallback]
    split_ifs with fast
    · rw [readVarint32FromArray_eq fast]
    · rw [readVarint64_eq, found_map]
      simp only [narrow]
  cases buffer with
  | nil => exact fallback []
  | cons b buffer =>
    rw [readTag]
    by_cases small : b < 0x80
    · rw [if_pos small, read_one small, found, UInt32.ofNat_uInt8ToNat]
      rfl
    · rw [if_neg small]
      exact fallback _

theorem varintSize32SignExtended_eq (value : Int32) :
    varintSize32SignExtended value = (writeVarint32SignExtendedToArray value).length := by
  rw [varintSize32SignExtended, writeVarint32SignExtendedToArray]
  split_ifs with negative
  · have below : value.toInt64.toInt < 0 := by
      rw [Int32.toInt_toInt64]
      exact Int32.lt_iff_toInt_lt.mp negative
    have word : value.toInt64.toInt = (value.toInt64.toUInt64.toNat : ℤ).bmod (2 ^ 64) := by
      rw [← Int64.toInt_toBitVec, BitVec.toInt_eq_toNat_bmod]
      rfl
    have bound := value.toInt64.toUInt64.toNat_lt
    have large : 2 ^ 63 ≤ value.toInt64.toUInt64.toNat := by
      rw [word, Int.bmod] at below
      split_ifs at below <;> omega
    rw [writeVarint64ToArray_eq]
    exact (length_varint (k := 9) (by omega) (by omega)).symm
  · rw [varintSize32_eq, writeVarint32ToArray_eq]

/-! ## Both directions -/

theorem length_varint64_le (value : UInt64) : (varint value.toNat).length ≤ 10 :=
  (length_varint_le_iff 9 value.toNat).mpr (value.toNat_lt.trans (by norm_num))
theorem length_varint32_le (value : UInt32) : (varint value.toNat).length ≤ 5 :=
  (length_varint_le_iff 4 value.toNat).mpr (value.toNat_lt.trans (by norm_num))

/-- The unrolled writers store what the loop stores, and as many bytes as the
    sizes say. -/
theorem writers_agree : (∀ value : UInt64, writeVarint64ToArray value = writeVarintSlow value ∧
      (writeVarint64ToArray value).length = varintSize64 value ∧ varintSize64 value ≤ 10) ∧
    ∀ value : UInt32, writeVarint32ToArray value = writeVarintSlow value.toUInt64 ∧
      writeTagToArray value = writeVarintSlow value.toUInt64 ∧
      (writeVarint32ToArray value).length = varintSize32 value ∧ varintSize32 value ≤ 5 := by
  refine ⟨fun value => ⟨?_, ?_, ?_⟩, fun value => ⟨?_, ?_, ?_, ?_⟩⟩
  · rw [writeVarint64ToArray_eq, writeVarintSlow_eq]
  · rw [writeVarint64ToArray_eq, varintSize64_eq]
  · rw [varintSize64_eq]
    exact length_varint64_le value
  · rw [writeVarint32ToArray_eq, writeVarintSlow_eq, UInt32.toNat_toUInt64]
  · rw [writeTagToArray_eq, writeVarintSlow_eq, UInt32.toNat_toUInt64]
  · rw [writeVarint32ToArray_eq, varintSize32_eq]
  · rw [varintSize32_eq]
    exact length_varint32_le value

/-- On any buffer the readers return what the loop returns, which stays in the
    buffer. Where it refuses, the tag is zero, and what is left of the buffer
    depends on the path. -/
theorem readers_agree (buffer : List UInt8) : readVarint64 buffer = readVarint64Slow 0 0 buffer ∧
    readVarint32 buffer = (readVarint64Slow 0 0 buffer).map (fun r => (r.1.toUInt32, r.2)) ∧
    (∀ tag rest, readVarint64Slow 0 0 buffer = .ok (tag, rest) → readTag buffer = .ok (tag.toUInt32, rest)) ∧
    (readVarint64Slow 0 0 buffer = .error .refused → readTag buffer = .ok (0, if fastPath buffer then buffer else [])) ∧
    readVarint64Slow 0 0 buffer ≠ .error .outside := by
  rw [slow_eq, found_map, readTag_eq]
  simp only [narrow]
  refine ⟨readVarint64_eq buffer, readVarint32_eq buffer, ?_, ?_, ?_⟩
  · cases Varints.read 10 buffer with
    | none => rintro _ _ ⟨⟩
    | some r =>
      rintro _ _ ⟨⟩
      rw [narrow]
      rfl
  · cases Varints.read 10 buffer with
    | none => exact fun _ => rfl
    | some r => rintro ⟨⟩
  · cases Varints.read 10 buffer <;> simp [found]

theorem readVarint64_write (value : UInt64) (s : List UInt8) :
    readVarint64 (writeVarint64ToArray value ++ s) = .ok (value, s) := by
  rw [readVarint64_eq, writeVarint64ToArray_eq, read_varint (length_varint64_le value), found, UInt64.ofNat_toNat]

theorem readVarint32_write (value : UInt32) (s : List UInt8) :
    readVarint32 (writeVarint32ToArray value ++ s) = .ok (value, s) := by
  rw [readVarint32_eq, writeVarint32ToArray_eq, read_varint ((length_varint32_le value).trans (by norm_num)), found,
    UInt32.ofNat_toNat]

theorem readTag_write (value : UInt32) (s : List UInt8) : readTag (writeTagToArray value ++ s) = .ok (value, s) := by
  rw [readTag_eq, writeTagToArray_eq, read_varint ((length_varint32_le value).trans (by norm_num)), found,
    UInt32.ofNat_toNat]
  rfl

theorem narrow_signExtended (value : Int32) : value.toInt64.toUInt64.toUInt32 = value.toUInt32 := by
  have narrowed : BitVec.setWidth 32 (BitVec.signExtend 64 value.toBitVec) = value.toBitVec := by
    apply BitVec.eq_of_getLsbD_eq
    intro i below
    rw [BitVec.getLsbD_setWidth, BitVec.getLsbD_signExtend]
    simp [below, show i < 64 by omega]
  apply UInt32.toBitVec_inj.mp
  simpa using narrowed

/-- A negative number takes ten bytes, of which the reader keeps 32 bits. -/
theorem readVarint32_writeSignExtended (value : Int32) (s : List UInt8) :
    readVarint32 (writeVarint32SignExtendedToArray value ++ s) = .ok (value.toUInt32, s) := by
  rw [writeVarint32SignExtendedToArray]
  split_ifs with negative
  · rw [readVarint32_eq, writeVarint64ToArray_eq, read_varint (length_varint64_le _), found, ← narrow, UInt64.ofNat_toNat,
      narrow_signExtended]
  · exact readVarint32_write _ s

end SteamworksService.CodedStream
