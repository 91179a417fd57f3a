import Mathlib.Data.Int.ModEq
import Mathlib.Data.List.Basic
import Mathlib.Data.Nat.Digits.Defs
import Mathlib.Tactic.Ring
import Mathlib.Tactic.Linarith
import Mathlib.Tactic.LinearCombination

/-!
# Positional numerals

Digit lists with signed digits, so that a reader that counts an unknown symbol
as `-1` is covered, and byte lists in both byte orders. `horner` is the loop
that programs run and `value` the sum it computes; `leBytes` cuts an integer
into bytes and `twosLength` is the length of its shortest two's-complement form.
-/
namespace SteamworksService.Numerals

/-! ## Signed digits -/

/-- Horner's scheme, most significant digit first. -/
def horner (b : ℤ) (ds : List ℤ) : ℤ := ds.foldl (fun acc d => acc * b + d) 0
/-- The value of a digit list, least significant digit first. -/
def value (b : ℤ) : List ℤ → ℤ
  | [] => 0
  | d :: ds => d + b * value b ds

/-- The digit that a symbol stands for: its index in the dictionary, or `-1` for
    a symbol that the dictionary does not have. -/
def digitOf {α : Type*} [DecidableEq α] (dictionary : List α) (c : α) : ℤ :=
  if c ∈ dictionary then dictionary.idxOf c else -1

section
variable {α : Type*} [DecidableEq α] {dictionary : List α} {c : α}

theorem digitOf_nonneg (member : c ∈ dictionary) : 0 ≤ digitOf dictionary c := by
  simp [digitOf, member]
theorem neg_one_le_digitOf : -1 ≤ digitOf dictionary c := by
  unfold digitOf
  split_ifs <;> omega
theorem digitOf_lt (nonempty : dictionary ≠ []) : digitOf dictionary c < dictionary.length := by
  have positive := List.length_pos_iff.mpr nonempty
  by_cases member : c ∈ dictionary
  · have inside := List.idxOf_lt_length_of_mem member
    simp only [digitOf, member, ↓reduceIte]
    exact_mod_cast inside
  · simp only [digitOf, member, ↓reduceIte]
    omega

/-- A renaming of the symbols that can be undone leaves the digits as they are. -/
theorem digitOf_map {β : Type*} [DecidableEq β] {f : α → β} {g : β → α} (back : ∀ d ∈ dictionary, g (f d) = d)
    (own : g (f c) = c) : digitOf (dictionary.map f) (f c) = digitOf dictionary c := by
  have apart : ∀ d ∈ dictionary, f d = f c → d = c := by
    intro d member same
    rw [← back d member, same, own]
  have present : f c ∈ dictionary.map f ↔ c ∈ dictionary := by
    constructor
    · intro renamed
      obtain ⟨d, member, same⟩ := List.mem_map.mp renamed
      rwa [← apart d member same]
    · exact List.mem_map_of_mem
  have index : (dictionary.map f).idxOf (f c) = dictionary.idxOf c := by
    clear back present
    induction dictionary with
    | nil => rfl
    | cons d ds ih =>
      by_cases same : d = c
      · simp [same]
      · have other : f d ≠ f c := fun equal => same (apart d (by simp) equal)
        rw [List.map_cons, List.idxOf_cons_ne _ other, List.idxOf_cons_ne _ same,
          ih (fun e member => apart e (by simp [member]))]
  simp only [digitOf, present, index]

/-- Words over the dictionary are told apart by their digits. -/
theorem map_digitOf_injective {s t : List α} (members : ∀ c ∈ s, c ∈ dictionary) (members' : ∀ c ∈ t, c ∈ dictionary)
    (same : s.map (digitOf dictionary) = t.map (digitOf dictionary)) : s = t := by
  induction s generalizing t with
  | nil => exact (List.map_eq_nil_iff.mp same.symm).symm
  | cons c s ih =>
    obtain ⟨d, rest, rfl, digit, digits⟩ := List.map_eq_cons_iff.mp same.symm
    have first := members c (by simp)
    have second := members' d (by simp)
    simp only [digitOf, first, second, if_true, Nat.cast_inj] at digit
    rw [(List.idxOf_inj second).mp digit,
      ih (fun e member => members e (by simp [member])) (fun e member => members' e (by simp [member])) digits.symm]

end

theorem horner_reverse (b : ℤ) (ds : List ℤ) : horner b ds.reverse = value b ds := by
  rw [horner, List.foldl_reverse]
  induction ds with
  | nil => rfl
  | cons d ds ih =>
    rw [List.foldr_cons, ih, value]
    ring

theorem value_append (b : ℤ) (ds es : List ℤ) : value b (ds ++ es) = value b ds + b ^ ds.length * value b es := by
  induction ds with
  | nil => simp [value]
  | cons d ds ih =>
    rw [List.cons_append, value, value, ih, List.length_cons, pow_succ]
    ring

theorem value_nonneg {b : ℤ} (base : 0 ≤ b) {ds : List ℤ} (digits : ∀ d ∈ ds, 0 ≤ d) : 0 ≤ value b ds := by
  induction ds with
  | nil => exact le_rfl
  | cons d ds ih =>
    have head := digits d (by simp)
    have tail := ih (fun e member => digits e (by simp [member]))
    exact add_nonneg head (mul_nonneg base tail)

/-- A numeral of `n` digits below the base stays below the `n`-th power of the base. -/
theorem value_lt {b : ℤ} (base : 0 < b) (ds : List ℤ) (digits : ∀ d ∈ ds, d < b) :
    value b ds < b ^ ds.length := by
  induction ds with
  | nil => simp [value]
  | cons d ds ih =>
    have head := digits d (by simp)
    have tail := ih (fun e member => digits e (by simp [member]))
    calc value b (d :: ds) = d + b * value b ds := rfl
      _ < b + b * value b ds := by linarith
      _ = b * (value b ds + 1) := by ring
      _ ≤ b * b ^ ds.length := by
        apply mul_le_mul_of_nonneg_left _ base.le
        exact tail
      _ = b ^ (d :: ds).length := by rw [List.length_cons, pow_succ']

/-- With digits from `-1` on, a numeral of `n` digits stays above the negated power. -/
theorem neg_lt_value {b : ℤ} (base : 2 ≤ b) (ds : List ℤ) (digits : ∀ d ∈ ds, -1 ≤ d) :
    -(b ^ ds.length) < value b ds := by
  induction ds with
  | nil => simp [value]
  | cons d ds ih =>
    have head := digits d (by simp)
    have tail := ih (fun e member => digits e (by simp [member]))
    have scaled : b * (-(b ^ ds.length) + 1) ≤ b * value b ds := by
      apply mul_le_mul_of_nonneg_left _ (by linarith)
      exact tail
    calc -(b ^ (d :: ds).length) = b * (-(b ^ ds.length) + 1) - b := by rw [List.length_cons, pow_succ']; ring
      _ < -1 + b * value b ds := by linarith
      _ ≤ d + b * value b ds := by linarith

/-- Numerals of one length with digits from 0 on are told apart by their values. -/
theorem value_injective {b : ℤ} {ds es : List ℤ} (digits : ∀ d ∈ ds, 0 ≤ d ∧ d < b) (digits' : ∀ e ∈ es, 0 ≤ e ∧ e < b)
    (length : ds.length = es.length) (same : value b ds = value b es) : ds = es := by
  induction ds generalizing es with
  | nil => exact (List.length_eq_zero_iff.mp length.symm).symm
  | cons d ds ih =>
    cases es with
    | nil => cases length
    | cons e es =>
      obtain ⟨low, high⟩ := digits d (by simp)
      obtain ⟨low', high'⟩ := digits' e (by simp)
      have split : d + b * value b ds = e + b * value b es := same
      have first : d = e := by
        have residues := congrArg (· % b) split
        simpa [Int.add_mul_emod_self_left, Int.emod_eq_of_lt low high, Int.emod_eq_of_lt low' high'] using residues
      have rest : value b ds = value b es := by
        rw [first] at split
        exact mul_left_cancel₀ (by omega) (add_left_cancel split)
      rw [first, ih (fun c member => digits c (by simp [member])) (fun c member => digits' c (by simp [member]))
        (by simpa using length) rest]

/-- Casting out: a numeral is congruent to its digit sum below the base. -/
theorem value_modEq_sum (b : ℤ) (ds : List ℤ) : value b ds ≡ ds.sum [ZMOD b - 1] := by
  induction ds with
  | nil => rfl
  | cons d ds ih =>
    have one : b ≡ 1 [ZMOD b - 1] := by
      apply Int.ModEq.symm
      exact (Int.modEq_iff_dvd).mpr dvd_rfl
    calc d + b * value b ds ≡ d + 1 * value b ds [ZMOD b - 1] := (one.mul_right _).add_left _
      _ = d + value b ds := by ring
      _ ≡ d + ds.sum [ZMOD b - 1] := ih.add_left _
      _ = (d :: ds).sum := by rw [List.sum_cons]

/-! ## Bytes -/

/-- The natural number with the given bytes, least significant byte first. -/
def leValue (bytes : List UInt8) : ℕ := Nat.ofDigits 256 (bytes.map UInt8.toNat)
/-- The natural number with the given bytes, most significant byte first. -/
def beValue (bytes : List UInt8) : ℕ := leValue bytes.reverse
/-- The low byte of an integer in two's complement: `n & 0xFF`. -/
def lowByte (n : ℤ) : UInt8 := UInt8.ofNat (n % 256).toNat
/-- The `k` low bytes of an integer in two's complement, least significant byte first. -/
def leBytes : ℕ → ℤ → List UInt8
  | 0, _ => []
  | k + 1, n => lowByte n :: leBytes k (n / 256)
/-- The `k` low bytes of an integer in two's complement, most significant byte first. -/
def beBytes (k : ℕ) (n : ℤ) : List UInt8 := (leBytes k n).reverse

@[simp] theorem leValue_nil : leValue [] = 0 := rfl
@[simp] theorem leValue_cons (x : UInt8) (xs : List UInt8) : leValue (x :: xs) = x.toNat + 256 * leValue xs := rfl
theorem leValue_append (xs ys : List UInt8) : leValue (xs ++ ys) = leValue xs + 256 ^ xs.length * leValue ys := by
  simp [leValue, Nat.ofDigits_append]
theorem leValue_lt (xs : List UInt8) : leValue xs < 256 ^ xs.length := by
  have bound := Nat.ofDigits_lt_base_pow_length (b := 256) (l := xs.map UInt8.toNat) (by norm_num)
    (by simp only [List.mem_map]; rintro _ ⟨x, _, rfl⟩; exact x.toNat_lt)
  simpa [leValue] using bound
theorem leValue_injective {xs ys : List UInt8} (length : xs.length = ys.length)
    (same : leValue xs = leValue ys) : xs = ys := by
  have below : ∀ zs : List UInt8, ∀ d ∈ zs.map UInt8.toNat, d < 256 := by
    intro zs
    simp only [List.mem_map]
    rintro _ ⟨x, _, rfl⟩
    exact x.toNat_lt
  have equal := Nat.ofDigits_inj_of_len_eq (b := 256) (by norm_num) (by simpa using length) (below xs) (below ys) same
  exact List.map_injective_iff.mpr (fun _ _ => UInt8.toNat_inj.mp) equal

@[simp] theorem beValue_nil : beValue [] = 0 := rfl
@[simp] theorem beValue_cons (x : UInt8) (xs : List UInt8) :
    beValue (x :: xs) = x.toNat * 256 ^ xs.length + beValue xs := by
  simp [beValue, leValue_append]
  ring

theorem lowByte_toNat (n : ℤ) : ((lowByte n).toNat : ℤ) = n % 256 := by
  have nonneg : 0 ≤ n % 256 := Int.emod_nonneg n (by norm_num)
  have small : n % 256 < 256 := Int.emod_lt_of_pos n (by norm_num)
  simp only [lowByte, UInt8.toNat_ofNat']
  omega

@[simp] theorem leBytes_length (k : ℕ) (n : ℤ) : (leBytes k n).length = k := by
  induction k generalizing n with
  | zero => rfl
  | succ k ih => simp [leBytes, ih]
@[simp] theorem beBytes_length (k : ℕ) (n : ℤ) : (beBytes k n).length = k := by simp [beBytes]

/-- Cutting into `k` bytes and reading them back is reduction modulo `256 ^ k`. -/
theorem leValue_leBytes (k : ℕ) (n : ℤ) : (leValue (leBytes k n) : ℤ) = n % 256 ^ k := by
  induction k generalizing n with
  | zero => simp [leBytes]
  | succ k ih =>
    have split : n / 256 = 256 ^ k * (n / 256 / 256 ^ k) + n / 256 % 256 ^ k := (Int.mul_ediv_add_emod _ _).symm
    have whole : n = 256 * 256 ^ k * (n / (256 * 256 ^ k)) + n % (256 * 256 ^ k) := (Int.mul_ediv_add_emod _ _).symm
    have low : n = 256 * (n / 256) + n % 256 := (Int.mul_ediv_add_emod _ _).symm
    rw [Int.ediv_ediv_of_nonneg (by norm_num)] at split
    calc (leValue (leBytes (k + 1) n) : ℤ) = n % 256 + 256 * (n / 256 % 256 ^ k) := by
          simp [leBytes, lowByte_toNat, ih]
      _ = n % (256 * 256 ^ k) := by linear_combination whole - low - 256 * split
      _ = n % 256 ^ (k + 1) := by rw [pow_succ']

/-- A list of `k` bytes is the big-endian form of whatever it is congruent to. -/
theorem eq_beBytes {k : ℕ} {bytes : List UInt8} {n : ℤ} (length : bytes.length = k)
    (same : (beValue bytes : ℤ) ≡ n [ZMOD 256 ^ k]) : bytes = beBytes k n := by
  have bound := leValue_lt bytes.reverse
  rw [List.length_reverse, length] at bound
  have reduced : (leValue bytes.reverse : ℤ) % 256 ^ k = n % 256 ^ k := same
  rw [Int.emod_eq_of_lt (by positivity) (by exact_mod_cast bound), ← leValue_leBytes] at reduced
  have equal : bytes.reverse = leBytes k n :=
    leValue_injective (by simp [length]) (by exact_mod_cast reduced)
  rw [beBytes, ← equal, List.reverse_reverse]

theorem beValue_beBytes (k : ℕ) (n : ℤ) : (beValue (beBytes k n) : ℤ) = n % 256 ^ k := by
  rw [beValue, beBytes, List.reverse_reverse, leValue_leBytes]

/-- The first bytes of a longer little-endian form are the shorter one. -/
theorem leBytes_take (k j : ℕ) (n : ℤ) : (leBytes (k + j) n).take k = leBytes k n := by
  induction k generalizing n with
  | zero => simp [leBytes]
  | succ k ih => rw [Nat.succ_add]; simp [leBytes, ih]

theorem leBytes_congr {k : ℕ} {m n : ℤ} (same : m ≡ n [ZMOD 256 ^ k]) : leBytes k m = leBytes k n := by
  apply leValue_injective (by simp)
  have equal : (leValue (leBytes k m) : ℤ) = leValue (leBytes k n) := by
    rw [leValue_leBytes, leValue_leBytes]; exact same
  exact_mod_cast equal

theorem modEq_of_leBytes {k : ℕ} {m n : ℤ} (same : leBytes k m = leBytes k n) : m ≡ n [ZMOD 256 ^ k] := by
  have equal := congrArg (fun bytes => (leValue bytes : ℤ)) same
  simpa [leValue_leBytes, Int.ModEq] using equal

/-! ## Two's complement -/

/-- The number of bytes of the shortest two's-complement form of an integer. -/
def twosLength : ℤ → ℕ
  | .ofNat n => (n.log2 + 1) / 8 + 1
  | .negSucc n => (n.log2 + 1) / 8 + 1

private theorem log2_bytes {k : ℕ} (positive : 0 < k) (n : ℕ) :
    (n.log2 + 1) / 8 + 1 ≤ k ↔ n < 2 ^ (8 * k - 1) := by
  have bits : (n.log2 + 1) / 8 + 1 ≤ k ↔ n.log2 < 8 * k - 1 := by omega
  rw [bits]
  by_cases zero : n = 0
  · subst zero
    have room : 0 < 8 * k - 1 := by omega
    simpa using room
  · exact Nat.log2_lt zero

/-- `k` bytes hold exactly the integers of the signed `8 * k`-bit range. -/
theorem twosLength_le_iff {k : ℕ} (positive : 0 < k) (n : ℤ) :
    twosLength n ≤ k ↔ -(2 ^ (8 * k - 1)) ≤ n ∧ n < 2 ^ (8 * k - 1) := by
  cases n with
  | ofNat m =>
    rw [twosLength, log2_bytes positive, Int.ofNat_eq_natCast]
    have power : (0 : ℤ) ≤ 2 ^ (8 * k - 1) := by positivity
    constructor
    · intro below
      exact ⟨by omega, by exact_mod_cast below⟩
    · rintro ⟨_, below⟩
      exact_mod_cast below
  | negSucc m =>
    rw [twosLength, log2_bytes positive, Int.negSucc_eq]
    have power : (0 : ℤ) ≤ 2 ^ (8 * k - 1) := by positivity
    constructor
    · intro below
      have cast : (m : ℤ) < 2 ^ (8 * k - 1) := by exact_mod_cast below
      constructor <;> omega
    · rintro ⟨above, _⟩
      have cast : (m : ℤ) < 2 ^ (8 * k - 1) := by omega
      exact_mod_cast cast

end SteamworksService.Numerals
