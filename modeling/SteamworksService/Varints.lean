import Mathlib.Algebra.Order.Ring.Nat
import Mathlib.Data.Nat.Notation
import Mathlib.Tactic.Ring

/-!
# Varints

Natural numbers as bytes in base 128, the lowest digit first. Every byte but the
last has its high bit set. A reader takes a bounded number of bytes, and what
follows the last one is left.
-/
namespace SteamworksService.Varints

/-- The bytes of a number. -/
def varint (n : ℕ) : List UInt8 :=
  if n < 128 then [UInt8.ofNat n] else UInt8.ofNat (n % 128 + 128) :: varint (n / 128)
termination_by n

/-- A number of at most `limit` bytes, and what follows it. -/
def read : ℕ → List UInt8 → Option (ℕ × List UInt8)
  | 0, _ => none
  | _ + 1, [] => none
  | limit + 1, b :: s =>
    if b.toNat < 128 then some (b.toNat, s) else (read limit s).map (fun r => (b.toNat % 128 + 128 * r.1, r.2))

/-! ## Writing -/

theorem varint_small {n : ℕ} (small : n < 128) : varint n = [UInt8.ofNat n] := by
  rw [varint, if_pos small]

theorem varint_large {n : ℕ} (large : 128 ≤ n) :
    varint n = UInt8.ofNat (n % 128 + 128) :: varint (n / 128) := by
  rw [varint, if_neg (by omega)]

theorem length_varint_pos (n : ℕ) : 0 < (varint n).length := by
  rw [varint]
  split_ifs <;> simp

/-- A number has at most `k + 1` bytes when it has at most `k + 1` digits. -/
theorem length_varint_le_iff (k n : ℕ) : (varint n).length ≤ k + 1 ↔ n < 128 ^ (k + 1) := by
  induction k generalizing n with
  | zero =>
    by_cases small : n < 128
    · simp [varint_small small, small]
    · have rest := length_varint_pos (n / 128)
      rw [varint_large (by omega), List.length_cons, zero_add, pow_one]
      omega
  | succ k ih =>
    by_cases small : n < 128
    · have large : 128 ^ 1 ≤ 128 ^ (k + 1 + 1) := Nat.pow_le_pow_right (by norm_num) (by omega)
      rw [varint_small small, List.length_singleton]
      omega
    · rw [varint_large (by omega), List.length_cons, Nat.add_le_add_iff_right, ih, pow_succ 128 (k + 1)]
      exact Nat.div_lt_iff_lt_mul (by norm_num)

/-- The bytes of a number of `k + 1` digits, each for itself. -/
theorem varint_digits {k n : ℕ} (low : k = 0 ∨ 128 ^ k ≤ n) (high : n < 128 ^ (k + 1)) : varint n =
    (List.range k).map (fun i => UInt8.ofNat (n / 128 ^ i % 128 + 128)) ++ [UInt8.ofNat (n / 128 ^ k)] := by
  induction k generalizing n with
  | zero =>
    rw [zero_add, pow_one] at high
    simp [varint_small high]
  | succ k ih =>
    have large : 128 ^ (k + 1) ≤ n := low.resolve_left (by omega)
    have least : 128 ^ 1 ≤ 128 ^ (k + 1) := Nat.pow_le_pow_right (by norm_num) (by omega)
    have split : ∀ i, n / 128 ^ (i + 1) = n / 128 / 128 ^ i := by
      intro i
      rw [Nat.div_div_eq_div_mul, pow_succ']
    have below : k = 0 ∨ 128 ^ k ≤ n / 128 := by
      right
      rw [Nat.le_div_iff_mul_le (by norm_num), ← pow_succ]
      exact large
    have above : n / 128 < 128 ^ (k + 1) := by
      rw [Nat.div_lt_iff_lt_mul (by norm_num), ← pow_succ]
      exact high
    rw [varint_large (by omega), ih below above, List.range_succ_eq_map, List.map_cons, List.map_map, split k]
    simp [Function.comp_def, split]

/-! ## Reading -/

/-- A number that is not longer than the limit is read back in front of anything. -/
theorem read_varint {limit n : ℕ} (fits : (varint n).length ≤ limit) (s : List UInt8) :
    read limit (varint n ++ s) = some (n, s) := by
  induction limit generalizing n with
  | zero =>
    have nonempty := length_varint_pos n
    omega
  | succ limit ih =>
    by_cases small : n < 128
    · have byte : (UInt8.ofNat n).toNat = n := by
        rw [UInt8.toNat_ofNat']
        omega
      rw [varint_small small, List.singleton_append, read, byte, if_pos small]
    · have byte : (UInt8.ofNat (n % 128 + 128)).toNat = n % 128 + 128 := by
        rw [UInt8.toNat_ofNat']
        omega
      rw [varint_large (by omega), List.length_cons, Nat.add_le_add_iff_right] at fits
      rw [varint_large (by omega), List.cons_append, read, byte, if_neg (by omega), ih fits, Option.map_some]
      congr 2
      omega

/-- What is read is a part of the input that is not empty. -/
theorem read_consumes {limit n : ℕ} {s rest : List UInt8} (found : read limit s = some (n, rest)) :
    ∃ front, front ≠ [] ∧ s = front ++ rest := by
  induction limit generalizing n s with
  | zero => cases found
  | succ limit ih =>
    cases s with
    | nil => cases found
    | cons b s =>
      rw [read] at found
      split_ifs at found
      · cases found
        exact ⟨[b], by simp, rfl⟩
      · obtain ⟨⟨m, _⟩, more, same⟩ := Option.map_eq_some_iff.mp found
        cases same
        obtain ⟨front, _, rfl⟩ := ih more
        exact ⟨b :: front, by simp, rfl⟩

theorem length_of_read {limit n : ℕ} {s rest : List UInt8} (found : read limit s = some (n, rest)) :
    rest.length < s.length := by
  obtain ⟨front, nonempty, rfl⟩ := read_consumes found
  have some := List.length_pos_iff.mpr nonempty
  rw [List.length_append]
  omega

/-- A number that is cut off is refused. -/
theorem read_cut {limit n : ℕ} {s t : List UInt8} (whole : varint n = s ++ t) (cut : t ≠ []) : read limit s = none := by
  induction limit generalizing n s with
  | zero => rfl
  | succ limit ih =>
    cases s with
    | nil => rfl
    | cons b s =>
      by_cases small : n < 128
      · rw [varint_small small, List.cons_append] at whole
        have empty := (List.cons.inj whole).2
        simp only [List.nil_eq, List.append_eq_nil_iff] at empty
        exact absurd empty.2 cut
      · rw [varint_large (by omega), List.cons_append] at whole
        obtain ⟨rfl, rest⟩ := List.cons.inj whole
        have byte : (UInt8.ofNat (n % 128 + 128)).toNat = n % 128 + 128 := by
          rw [UInt8.toNat_ofNat']
          omega
        rw [read, byte, if_neg (by omega), ih rest, Option.map_none]

end SteamworksService.Varints
