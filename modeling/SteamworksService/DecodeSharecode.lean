import SteamworksService.Runs
import SteamworksService.SharingCodes

/-!
# `DecodeSharecode`

The decoder of the Linux connection: a global regex removal and a base-57
evaluation in an 18-byte big-endian array, by loops over `int` registers. The
model keeps every value that the loops assign to `v` and `carry`; integers are
unbounded in it, and the results show that no register leaves the range of an `int`.
-/
namespace SteamworksService.DecodeSharecode
open Numerals Runs SharingCodes

/-! ## Strings -/

/-- The bytes of a string of ASCII characters. -/
def bytes (s : List Char) : List UInt8 := s.map (fun c => UInt8.ofNat c.toNat)

/-- Removal of every match of an alternation of literal words, found from left
    to right without overlap; `skip` counts what is left of the current match. -/
def eraseMatches (words : List (List UInt8)) : ℕ → List UInt8 → List UInt8
  | _, [] => []
  | skip + 1, _ :: rest => eraseMatches words skip rest
  | 0, c :: rest =>
    match words.find? (fun word => word.isPrefixOf (c :: rest)) with
    | some word => eraseMatches words (word.length - 1) rest
    | none => c :: eraseMatches words 0 rest
/-- `std::regex_replace(sharecode, std::regex("CSGO|-"), "")`. -/
def regexReplace (sharecode : List UInt8) : List UInt8 :=
  eraseMatches [bytes "CSGO".toList, bytes "-".toList] 0 sharecode
/-- `static_cast<int>(dictionary.find(cur_char))`, where `npos` becomes `-1`. -/
def find (cur_char : UInt8) : ℤ := digitOf (bytes dictionary) cur_char

/-! ## The loops -/

/-- `std::array<uint8_t, 18>`. -/
abbrev Array18 := Vector UInt8 18
def byteAt (a : Array18) (i : ℕ) : ℤ := (a.toList[i]?.getD 0).toNat

/-- A value assigned to one of the two `int` registers. -/
inductive Assigned
  | v (value : ℤ)
  | carry (value : ℤ)
  deriving DecidableEq, Repr
/-- The array being written, the two registers, and every value they have held, latest first. -/
structure Locals where
  array : Array18
  v : ℤ
  carry : ℤ
  assigned : List Assigned

/-- `v = v + carry; carry = v >> 8; array[s] = v & 0xFF;` after `v` was set to `v0`. -/
def writeByte (l : Locals) (s : ℕ) (v0 : ℤ) : Locals :=
  let v := v0 + l.carry
  let carry := v >>> (8 : ℕ)
  { array := l.array.setIfInBounds s (lowByte v), v, carry, assigned := .carry carry :: .v v :: .v v0 :: l.assigned }
/-- `carry = 0;`. -/
def clearCarry (l : Locals) : Locals := { l with carry := 0, assigned := .carry 0 :: l.assigned }

/-- The body of the loop over `s` in the multiplication. -/
def mulInner (result : Array18) (t s : ℕ) (l : Locals) : Locals :=
  writeByte l s (if t - s = 0 then byteAt l.array s + byteAt result t * 57 else 0)
/-- The body of the loop over `t` in the multiplication: `s` runs from `t` down to 0. -/
def mulOuter (result : Array18) (t : ℕ) (l : Locals) : Locals :=
  countdown (mulInner result t) (t + 1) (clearCarry l)
/-- The body of the loop over `t` in the addition. -/
def addBody (addval : ℤ) (t : ℕ) (l : Locals) : Locals :=
  writeByte l t (if t = 17 then byteAt l.array t + addval else byteAt l.array t)
/-- One round for one character: `tmp` becomes 57 times the result, then the result plus the digit. -/
def round (l : Locals) (cur_char : UInt8) : Locals :=
  let zeroed : Locals :=
    { array := Vector.replicate 18 0, v := 0, carry := 0, assigned := .v 0 :: .carry 0 :: l.assigned }
  let multiplied := countdown (mulOuter l.array) 18 zeroed
  countdown (addBody (find cur_char)) 18 (clearCarry multiplied)
/-- The loop over the characters, from a zero array. -/
def decodeLoop (sharecode : List UInt8) : Locals :=
  sharecode.foldl round { array := Vector.replicate 18 0, v := 0, carry := 0, assigned := [] }

structure DecodedSharecode where
  matchId : UInt64
  outcomeId : UInt64
  token : UInt64
  deriving DecidableEq, Repr
def DecodedSharecode.words (d : DecodedSharecode) : MatchWords := ⟨d.matchId.toNat, d.outcomeId.toNat, d.token.toNat⟩

/-- The characters that the loop reads: what the regex leaves, from right to left. -/
def reversed (code : List UInt8) : List UInt8 := (regexReplace code).reverse
/-- `DecodeSharecode`: its return value and what it stores through `pOut`. -/
def decodeSharecode (code : List UInt8) : Bool × DecodedSharecode :=
  let result := (decodeLoop (reversed code)).array.toList
  (true,
    { matchId := UInt64.ofNat (leValue (result.take 8))
      outcomeId := UInt64.ofNat (leValue ((result.drop 8).take 8))
      token := UInt64.ofNat (leValue ((result.drop 16).take 2)) })

/-! ## Arrays as numbers -/

theorem byteAt_bounds (a : Array18) (i : ℕ) : 0 ≤ byteAt a i ∧ byteAt a i ≤ 255 := by
  have small := (a.toList[i]?.getD 0).toNat_lt
  unfold byteAt
  omega
theorem byteAt_set (a : Array18) {s : ℕ} (inside : s < 18) (n : ℤ) (i : ℕ) :
    byteAt (a.setIfInBounds s (lowByte n)) i = if i = s then n % 256 else byteAt a i := by
  unfold byteAt
  rw [Vector.toList_setIfInBounds, List.getElem?_set]
  by_cases same : s = i
  · subst same
    simp [inside, lowByte_toNat]
  · simp [same, Ne.symm same]
theorem byteAt_zero (i : ℕ) : byteAt (Vector.replicate 18 0) i = 0 := by
  unfold byteAt
  rw [Vector.toList_replicate, List.getElem?_replicate]
  split_ifs <;> rfl

/-- The number in the last `k` bytes. -/
def lowValue (a : Array18) : ℕ → ℤ
  | 0 => 0
  | k + 1 => byteAt a (17 - k) * 256 ^ k + lowValue a k

theorem lowValue_congr {a b : Array18} {k : ℕ} (bound : k ≤ 18)
    (same : ∀ i, 18 - k ≤ i → i < 18 → byteAt a i = byteAt b i) : lowValue a k = lowValue b k := by
  induction k with
  | zero => rfl
  | succ k ih =>
    rw [lowValue, lowValue, ih (by omega) (fun i low high => same i (by omega) high), same (17 - k) (by omega) (by omega)]

theorem lowValue_eq (a : Array18) : lowValue a 18 = beValue a.toList := by
  have suffix : ∀ k ≤ 18, lowValue a k = beValue (a.toList.drop (18 - k)) := by
    intro k
    induction k with
    | zero =>
      intro _
      rw [List.drop_of_length_le (by simp)]
      rfl
    | succ k ih =>
      intro bound
      have inside : 17 - k < a.toList.length := by rw [Vector.length_toList]; omega
      have next : 18 - (k + 1) = 17 - k := by omega
      have after : 17 - k + 1 = 18 - k := by omega
      rw [lowValue, ih (by omega), next, List.drop_eq_getElem_cons inside, beValue_cons, after, byteAt,
        List.getElem?_eq_getElem inside]
      have rest : (a.toList.drop (18 - k)).length = k := by rw [List.length_drop, Vector.length_toList]; omega
      rw [rest]
      push_cast
      rfl
  simpa using suffix 18 le_rfl

/-! ## The multiplication -/

/-- What the loops may assign: an `int`, and for the carry a value from -1 to 57. -/
def Assigned.InRange : Assigned → Prop
  | .v value => -(2 ^ 31) ≤ value ∧ value < 2 ^ 31
  | .carry value => -1 ≤ value ∧ value ≤ 57
def InRange (assigned : List Assigned) : Prop := ∀ a ∈ assigned, a.InRange

theorem shiftRight_eight (n : ℤ) : n >>> (8 : ℕ) = n / 256 := by
  rw [Int.shiftRight_eq_div_pow]
  norm_num

/-- A written byte and the new carry make up the value that was split. -/
theorem writeByte_inRange {l : Locals} {s : ℕ} {v0 : ℤ} (earlier : InRange l.assigned)
    (start : -1 ≤ v0 ∧ v0 ≤ 14592) (low : -1 ≤ v0 + l.carry) (high : v0 + l.carry ≤ 14592) :
    InRange (writeByte l s v0).assigned := by
  simp only [InRange, writeByte, List.forall_mem_cons, Assigned.InRange, shiftRight_eight]
  refine ⟨⟨?_, ?_⟩, ⟨?_, ?_⟩, ⟨?_, ?_⟩, earlier⟩ <;> omega

/-- While `s` runs down from `t`, the product byte `n` is split over the places
    `t` and `t - 1`, and the places below are overwritten with the zeros they hold. -/
structure InnerLoop (before : Locals) (t : ℕ) (n : ℤ) (s : ℕ) (l : Locals) : Prop where
  high : ∀ i, t < i → byteAt l.array i = byteAt before.array i
  place : byteAt l.array t = if s ≤ t then n % 256 else byteAt before.array t
  next : ∀ i, i + 1 = t → byteAt l.array i = if s < t then n / 256 else 0
  low : ∀ i, i + 1 < t → byteAt l.array i = 0
  carry : l.carry = if s = t then n / 256 else 0
  inRange : InRange l.assigned

private theorem innerLoop_step {before : Locals} {result : Array18} {t : ℕ} {n : ℤ} (bound : t < 18)
    (product : n = byteAt before.array t + byteAt result t * 57) (small : 0 ≤ n ∧ n ≤ 14592) :
    ∀ s < t + 1, ∀ l, InnerLoop before t n (s + 1) l → InnerLoop before t n s (mulInner result t s l) := by
  intro s below l loop
  have inside : s < 18 := by omega
  rcases Nat.lt_or_eq_of_le (Nat.le_of_lt_succ below) with lower | rfl
  · -- Below `t` the value is the carry alone: the high part of `n` just below `t`, then zero.
    have zero : ¬ t - s = 0 := by omega
    have value : (0 : ℤ) + l.carry = if s + 1 = t then n / 256 else 0 := by rw [loop.carry, zero_add]
    have quotient : 0 ≤ n / 256 ∧ n / 256 ≤ 57 := by omega
    have vBounds : 0 ≤ (0 : ℤ) + l.carry ∧ (0 : ℤ) + l.carry ≤ 57 := by
      rw [value]; split_ifs <;> omega
    simp only [mulInner, zero, ↓reduceIte]
    constructor
    · intro i above
      have other : i ≠ s := by omega
      simp only [writeByte, byteAt_set _ inside, other, ↓reduceIte, loop.high i above]
    · have other : t ≠ s := by omega
      simp only [writeByte, byteAt_set _ inside, other, ↓reduceIte, loop.place, lower.le,
        Nat.succ_le_of_lt lower]
    · intro i adjacent
      by_cases same : i = s
      · have just : s + 1 = t := by omega
        simp only [writeByte, byteAt_set _ inside, same, ↓reduceIte, value, just, lower]
        omega
      · have already : s + 1 < t := by omega
        simp only [writeByte, byteAt_set _ inside, same, ↓reduceIte, loop.next i adjacent, already, lower]
    · intro i far
      by_cases same : i = s
      · have past : ¬ s + 1 = t := by omega
        simp only [writeByte, byteAt_set _ inside, same, ↓reduceIte, value, past, Int.zero_emod]
      · simp only [writeByte, byteAt_set _ inside, same, ↓reduceIte, loop.low i far]
    · have other : ¬ s = t := by omega
      simp only [writeByte, shiftRight_eight, other, ↓reduceIte]
      omega
    · exact writeByte_inRange loop.inRange (by omega) (by omega) (by omega)
  · -- At `t` itself the carry is still clear and the place holds what the round above left there.
    have start : l.carry = 0 := by rw [loop.carry, if_neg (by omega)]
    have held : byteAt l.array s = byteAt before.array s := by rw [loop.place, if_neg (by omega)]
    have value : byteAt l.array s + byteAt result s * 57 = n := by rw [held, product]
    simp only [mulInner, Nat.sub_self, ↓reduceIte, value]
    constructor
    · intro i above
      have other : i ≠ s := by omega
      simp only [writeByte, byteAt_set _ inside, other, ↓reduceIte, loop.high i above]
    · simp only [writeByte, byteAt_set _ inside, ↓reduceIte, start, add_zero, le_refl]
    · intro i adjacent
      have other : i ≠ s := by omega
      have outside : ¬ s + 1 < s := by omega
      simp only [writeByte, byteAt_set _ inside, other, ↓reduceIte, loop.next i adjacent, outside, lt_irrefl]
    · intro i far
      have other : i ≠ s := by omega
      simp only [writeByte, byteAt_set _ inside, other, ↓reduceIte, loop.low i far]
    · simp only [writeByte, shiftRight_eight, start, add_zero, ↓reduceIte]
    · exact writeByte_inRange loop.inRange (by omega) (by omega) (by omega)

/-- Once the places from `i` on are done, they hold 57 times the bytes of the
    result there, the place below holds the carry and the rest is still zero. -/
structure OuterLoop (result : Array18) (i : ℕ) (l : Locals) : Prop where
  product : ∃ c, 0 ≤ c ∧ c ≤ 57 ∧ (∀ j, j + 1 = i → byteAt l.array j = c) ∧
    lowValue l.array (18 - i) + c * 256 ^ (18 - i) = 57 * lowValue result (18 - i)
  low : ∀ j, j + 1 < i → byteAt l.array j = 0
  inRange : InRange l.assigned

private theorem outerLoop_step (result : Array18) :
    ∀ t < 18, ∀ l, OuterLoop result (t + 1) l → OuterLoop result t (mulOuter result t l) := by
  intro t bound l loop
  obtain ⟨c, nonneg, small, place, value⟩ := loop.product
  have factor := byteAt_bounds result t
  have held : byteAt l.array t = c := place t rfl
  have start : InnerLoop (clearCarry l) t (byteAt l.array t + byteAt result t * 57) (t + 1) (clearCarry l) := by
    constructor
    · intro i above; rfl
    · rw [if_neg (by omega)]
    · intro i adjacent
      rw [if_neg (by omega)]
      exact loop.low i (by omega)
    · intro i far
      exact loop.low i (by omega)
    · rw [if_neg (by omega)]; rfl
    · simp only [InRange, clearCarry, List.forall_mem_cons, Assigned.InRange]
      exact ⟨by omega, loop.inRange⟩
  have loop' : InnerLoop (clearCarry l) t _ 0 (mulOuter result t l) :=
    countdown_invariant start (innerLoop_step bound rfl (by omega))
  constructor
  · refine ⟨(c + byteAt result t * 57) / 256, by omega, by omega, ?_, ?_⟩
    · intro j adjacent
      rw [loop'.next j adjacent, if_pos (by omega), held]
    · have width : 18 - t = (17 - t) + 1 := by omega
      have index : 17 - (17 - t) = t := by omega
      have above : 18 - (t + 1) = 17 - t := by omega
      have rest : lowValue (mulOuter result t l).array (17 - t) = lowValue l.array (17 - t) :=
        lowValue_congr (by omega) (fun i low _ => loop'.high i (by omega))
      have digit : byteAt (mulOuter result t l).array t = (c + byteAt result t * 57) % 256 := by
        rw [loop'.place, if_pos (Nat.zero_le t), held]
      have split := Int.emod_add_mul_ediv (c + byteAt result t * 57) 256
      rw [above] at value
      rw [width, lowValue, lowValue, index, rest, digit, pow_succ]
      linear_combination value + 256 ^ (17 - t) * split
  · intro j far
    exact loop'.low j far
  · exact loop'.inRange

/-! ## The addition -/

/-- Once the places from `i` on are done, they hold the sum of the former bytes
    and the added value, up to a carry of -1, 0 or 1. -/
structure AddLoop (before : Array18) (addval : ℤ) (i : ℕ) (l : Locals) : Prop where
  sum : lowValue l.array (18 - i) + l.carry * 256 ^ (18 - i) =
    lowValue before (18 - i) + if i ≤ 17 then addval else 0
  start : i = 18 → l.carry = 0
  carry : -1 ≤ l.carry ∧ l.carry ≤ 1
  low : ∀ j, j < i → byteAt l.array j = byteAt before j
  inRange : InRange l.assigned

private theorem addLoop_step {before : Array18} {addval : ℤ} (digit : -1 ≤ addval ∧ addval ≤ 56) :
    ∀ t < 18, ∀ l, AddLoop before addval (t + 1) l → AddLoop before addval t (addBody addval t l) := by
  intro t bound l loop
  have held := loop.low t (Nat.lt_succ_self t)
  have byte := byteAt_bounds before t
  have carry := loop.carry
  -- The digit is added at the last place only, where no carry has arisen yet.
  have value : ∃ v0, (if t = 17 then byteAt l.array t + addval else byteAt l.array t) = v0 ∧
      v0 + l.carry = byteAt before t + l.carry + (if t = 17 then addval else 0) ∧
      -1 ≤ v0 ∧ v0 ≤ 311 ∧ -1 ≤ v0 + l.carry ∧ v0 + l.carry ≤ 311 := by
    refine ⟨_, rfl, ?_⟩
    by_cases last : t = 17
    · have clear := loop.start (by omega)
      simp only [last, ↓reduceIte] at held byte ⊢
      omega
    · simp only [last, ↓reduceIte]
      omega
  obtain ⟨v0, first, split, low0, high0, low1, high1⟩ := value
  rw [addBody, first]
  have width : 18 - t = (17 - t) + 1 := by omega
  have index : 17 - (17 - t) = t := by omega
  have above : 18 - (t + 1) = 17 - t := by omega
  constructor
  · have rest : lowValue (writeByte l t v0).array (17 - t) = lowValue l.array (17 - t) :=
      lowValue_congr (by omega) (fun i low _ => by
        have other : i ≠ t := by omega
        simp only [writeByte, byteAt_set _ bound, other, ↓reduceIte])
    have written : byteAt (writeByte l t v0).array t = (v0 + l.carry) % 256 := by
      simp only [writeByte, byteAt_set _ bound, ↓reduceIte]
    have next : (writeByte l t v0).carry = (v0 + l.carry) / 256 := by
      simp only [writeByte, shiftRight_eight]
    have parts := Int.emod_add_mul_ediv (v0 + l.carry) 256
    have sum := loop.sum
    rw [above] at sum
    rw [width, lowValue, lowValue, index, rest, written, next, pow_succ, if_pos (by omega)]
    by_cases last : t = 17
    · rw [if_neg (by omega)] at sum
      rw [if_pos last] at split
      have one : (256 : ℤ) ^ (17 - t) = 1 := by rw [last, Nat.sub_self, pow_zero]
      rw [one] at sum ⊢
      linear_combination sum + parts + split
    · rw [if_pos (by omega)] at sum
      rw [if_neg last] at split
      linear_combination sum + 256 ^ (17 - t) * (parts + split)
  · intro impossible; omega
  · simp only [writeByte, shiftRight_eight]; omega
  · intro j below
    have other : j ≠ t := by omega
    simp only [writeByte, byteAt_set _ bound, other, ↓reduceIte]
    exact loop.low j (by omega)
  · exact writeByte_inRange loop.inRange (by omega) (by omega) (by omega)

/-! ## The whole run -/

theorem find_bounds (c : UInt8) : -1 ≤ find c ∧ find c ≤ 56 := by
  have length : (bytes dictionary).length = 57 := by decide
  have below := digitOf_lt (c := c) (show bytes dictionary ≠ [] by decide)
  rw [length] at below
  exact ⟨neg_one_le_digitOf, by unfold find; omega⟩

/-- A round multiplies by 57 and adds the digit, modulo `2 ^ 144`. -/
theorem round_correct {l : Locals} (c : UInt8) (earlier : InRange l.assigned) :
    lowValue (round l c).array 18 ≡ lowValue l.array 18 * 57 + find c [ZMOD 256 ^ 18] ∧
      InRange (round l c).assigned := by
  let zeroed : Locals :=
    { array := Vector.replicate 18 0, v := 0, carry := 0, assigned := .v 0 :: .carry 0 :: l.assigned }
  let multiplied := countdown (mulOuter l.array) 18 zeroed
  have mulStart : OuterLoop l.array 18 zeroed := by
    constructor
    · exact ⟨0, le_rfl, by norm_num, fun j _ => byteAt_zero j, by simp [lowValue]⟩
    · exact fun j _ => byteAt_zero j
    · simp only [zeroed, InRange, List.forall_mem_cons, Assigned.InRange]
      exact ⟨by omega, by omega, earlier⟩
  have mulEnd : OuterLoop l.array 0 multiplied := countdown_invariant mulStart (outerLoop_step l.array)
  obtain ⟨c57, _, _, _, product⟩ := mulEnd.product
  have addStart : AddLoop multiplied.array (find c) 18 (clearCarry multiplied) := by
    constructor
    · simp [lowValue, clearCarry]
    · exact fun _ => rfl
    · simp [clearCarry]
    · exact fun j _ => rfl
    · simp only [clearCarry, InRange, List.forall_mem_cons, Assigned.InRange]
      exact ⟨by omega, mulEnd.inRange⟩
  have addEnd : AddLoop multiplied.array (find c) 0 (round l c) :=
    countdown_invariant addStart (addLoop_step (find_bounds c))
  have sum := addEnd.sum
  simp only [Nat.sub_zero, Nat.zero_le, ↓reduceIte] at product sum
  refine ⟨?_, addEnd.inRange⟩
  apply Int.modEq_iff_dvd.mpr
  exact ⟨c57 + (round l c).carry, by linear_combination -sum - product⟩

theorem foldl_round (cs : List UInt8) :
    ∀ (l : Locals) (acc : ℤ), InRange l.assigned → lowValue l.array 18 ≡ acc [ZMOD 256 ^ 18] →
      lowValue (cs.foldl round l).array 18 ≡ (cs.map find).foldl (fun acc d => acc * 57 + d) acc [ZMOD 256 ^ 18] ∧
        InRange (cs.foldl round l).assigned := by
  induction cs with
  | nil => exact fun l acc earlier same => ⟨same, earlier⟩
  | cons c cs ih =>
    intro l acc earlier same
    obtain ⟨value, inRange⟩ := round_correct c earlier
    have next : lowValue (round l c).array 18 ≡ acc * 57 + find c [ZMOD 256 ^ 18] :=
      value.trans ((same.mul_right 57).add_right _)
    simp only [List.foldl_cons, List.map_cons]
    exact ih (round l c) (acc * 57 + find c) inRange next

/-- The array ends as the 18-byte form of Horner's value, whatever the characters. -/
theorem decodeLoop_correct (cs : List UInt8) :
    (decodeLoop cs).array.toList = beBytes 18 (horner 57 (cs.map find)) ∧ InRange (decodeLoop cs).assigned := by
  have zero : lowValue (Vector.replicate 18 0) 18 ≡ 0 [ZMOD 256 ^ 18] := by decide
  obtain ⟨value, inRange⟩ := foldl_round cs
    { array := Vector.replicate 18 0, v := 0, carry := 0, assigned := [] } 0 (by simp [InRange]) zero
  refine ⟨eq_beBytes Vector.length_toList ?_, inRange⟩
  rw [← lowValue_eq]
  exact value

/-- What `DecodeSharecode` stores are the words of that form, on every string. -/
theorem decodeSharecode_words (code : List UInt8) :
    (decodeSharecode code).2.words = wordsOf (beBytes 18 (horner 57 ((reversed code).map find))) := by
  have word : ∀ l : List UInt8, l.length ≤ 8 → leValue l % 2 ^ 64 = leValue l := by
    intro l length
    apply Nat.mod_eq_of_lt
    exact (leValue_lt l).trans_le (Nat.pow_le_pow_right (by norm_num) length)
  have token : ∀ l : List UInt8, (l.take 2).length ≤ 8 := fun l => by simp
  simp only [decodeSharecode, DecodedSharecode.words, wordsOf, (decodeLoop_correct (reversed code)).1,
    UInt64.toNat_ofNat', word _ (List.length_take_le _ _), word _ (token _)]

/-- The loops compute Horner's value modulo `2 ^ 144` without leaving the range
    of their registers, and the outputs are the little-endian words of the array. -/
theorem decodeSharecode_total_correct (code : List UInt8) :
    (beValue (decodeLoop (regexReplace code).reverse).array.toList : ℤ) =
        (regexReplace code).reverse.foldl
          (fun acc x => acc * 57 + if x ∈ bytes dictionary then ((bytes dictionary).idxOf x : ℤ) else -1) 0 % 2 ^ 144 ∧
      (∀ a ∈ (decodeLoop (regexReplace code).reverse).assigned, a.InRange) ∧
      (decodeSharecode code).2.words = wordsOf (decodeLoop (regexReplace code).reverse).array.toList := by
  obtain ⟨array, inRange⟩ := decodeLoop_correct (regexReplace code).reverse
  refine ⟨?_, inRange, ?_⟩
  · rw [array, beValue_beBytes, horner, List.foldl_map]
    norm_num [find, digitOf]
  · rw [array, decodeSharecode_words, reversed]

end SteamworksService.DecodeSharecode
