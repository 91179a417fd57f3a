import SteamworksService.DistinctCodes
import Mathlib.Data.List.Nodup
import Mathlib.Data.Nat.Digits.Lemmas

/-!
# The codes of a match

The decoder read backwards: the numbers whose lower 18 bytes hold the words of a
match, and the codes in which they are written. The service never fails to have
a code for a match, although it rejects the numbers of at most 17 bytes.
-/
namespace SteamworksService.CodesOfMatch
open Numerals DotNet SharingCodes FromSharingCode Decoders DistinctCodes

/-! ## Writing a number as a code -/

/-- The symbol of a digit. -/
def symbolOf (d : ℕ) : Char := dictionary.getD d 'A'

theorem symbolOf_mem : ∀ d < 57, symbolOf d ∈ dictionary := by
  decide
theorem digitOf_symbolOf : ∀ d < 57, digitOf dictionary (symbolOf d) = d := by
  decide

theorem value_natCast (b : ℕ) (ds : List ℕ) : value b (ds.map Nat.cast) = Nat.ofDigits b ds := by
  induction ds with
  | nil => rfl
  | cons d ds ih =>
    rw [List.map_cons, value, ih, Nat.ofDigits_cons]
    push_cast
    rfl

/-- The code in which a number of at most 25 digits is written. -/
def codeOf (n : ℕ) (fits : n < 57 ^ 25) : SharingCode where
  symbols := (Nat.digitsAppend 57 25 n).map symbolOf
  twentyFive := by rw [List.length_map, Nat.length_digitsAppend (by norm_num) 25 fits]
  fromDictionary := by
    intro c member
    obtain ⟨d, digit, rfl⟩ := List.mem_map.mp member
    exact symbolOf_mem d (Nat.lt_of_mem_digitsAppend (by norm_num) 25 d digit)

theorem value_codeOf (n : ℕ) (fits : n < 57 ^ 25) : (codeOf n fits).value = n := by
  have digits : (Nat.digitsAppend 57 25 n).map (digitOf dictionary ∘ symbolOf) =
      (Nat.digitsAppend 57 25 n).map Nat.cast := by
    apply List.map_congr_left
    intro d member
    exact digitOf_symbolOf d (Nat.lt_of_mem_digitsAppend (by norm_num) 25 d member)
  have written := value_natCast 57 (Nat.digitsAppend 57 25 n)
  rw [Nat.digitsAppend, Nat.ofDigits_append_replicate_zero, Nat.ofDigits_digits, ← Nat.digitsAppend, ← digits] at written
  rw [SharingCode.value, codeOf, List.map_map]
  exact written

/-! ## The numbers of a match -/

/-- The number whose 18 bytes hold the words. -/
def numberOf (d : SharingCodeDecoded) : ℕ :=
  beValue (leBytes 8 d.matchId.toNat ++ leBytes 8 d.outcomeId.toNat ++ leBytes 2 d.token.toNat)
/-- It and what is congruent to it, as far as 25 digits reach and without the
    numbers of at most 17 bytes. -/
def numbersOf (d : SharingCodeDecoded) : List ℕ :=
  ((List.range 4).map (fun k => numberOf d + k * 2 ^ 144)).filter (fun n => 2 ^ 135 ≤ n ∧ n < 57 ^ 25)

section
variable (d : SharingCodeDecoded)

theorem numberOf_lt : numberOf d < 2 ^ 144 := by
  have bound := leValue_lt (leBytes 8 d.matchId.toNat ++ leBytes 8 d.outcomeId.toNat ++ leBytes 2 d.token.toNat).reverse
  rw [numberOf, beValue]
  simp only [List.length_reverse, List.length_append, leBytes_length] at bound
  exact bound.trans_le (by norm_num)

theorem words_numberOf : d.words = wordsOf (beBytes 18 (numberOf d)) := by
  have held : leBytes 8 d.matchId.toNat ++ leBytes 8 d.outcomeId.toNat ++ leBytes 2 d.token.toNat =
      beBytes 18 (numberOf d) := eq_beBytes (by simp) rfl
  have back : ∀ (k n : ℕ), n < 256 ^ k → leValue (leBytes k n) = n := by
    intro k n small
    have value := leValue_leBytes k n
    rw [Int.emod_eq_of_lt (by positivity) (by exact_mod_cast small)] at value
    exact_mod_cast value
  have first := back 8 d.matchId.toNat (d.matchId.toNat_lt.trans_le (by norm_num))
  have second := back 8 d.outcomeId.toNat (d.outcomeId.toNat_lt.trans_le (by norm_num))
  have third := back 2 d.token.toNat (d.token.toNat_lt.trans_le (by norm_num))
  rw [← held, wordsOf, List.append_assoc, List.take_left' (leBytes_length 8 _), List.drop_left' (leBytes_length 8 _),
    List.take_left' (leBytes_length 8 _), ← List.append_assoc, List.drop_left' (by simp),
    List.take_of_length_le (by simp), first, second, third]
  rfl

/-- A number below four moduli is its remainder and up to three of them. -/
theorem exists_wraps {r n modulus high : ℕ} (remainder : r < modulus) (few : high ≤ 4 * modulus) (below : n < high)
    (congruent : (n : ℤ) ≡ r [ZMOD modulus]) : ∃ k < 4, r + k * modulus = n := by
  have same : n % modulus = r := by
    rw [← Nat.mod_eq_of_lt remainder]
    exact Int.natCast_modEq_iff.mp congruent
  refine ⟨n / modulus, Nat.div_lt_of_lt_mul (by omega), ?_⟩
  rw [← same]
  exact Nat.mod_add_div' n modulus

theorem mem_numbersOf (n : ℕ) :
    n ∈ numbersOf d ↔ (n : ℤ) ≡ numberOf d [ZMOD 256 ^ 18] ∧ 2 ^ 135 ≤ n ∧ n < 57 ^ 25 := by
  have power : (256 : ℤ) ^ 18 = (2 ^ 144 : ℕ) := by norm_num
  simp only [numbersOf, List.mem_filter, List.mem_map, List.mem_range, decide_eq_true_eq, power]
  constructor
  · rintro ⟨⟨k, _, rfl⟩, fits⟩
    refine ⟨?_, fits⟩
    apply Int.ModEq.symm
    rw [Int.modEq_iff_dvd, Nat.cast_add, add_sub_cancel_left, Nat.cast_mul]
    exact dvd_mul_left _ _
  · rintro ⟨wraps, low, high⟩
    exact ⟨exists_wraps (numberOf_lt d) (by norm_num) high wraps, low, high⟩

/-- Three or four of the numbers that leave a remainder lie between a low bound
    and one that is four moduli up, but for less than one of them. -/
theorem length_between {r low modulus high : ℕ} (remainder : r < modulus) (near : low ≤ modulus)
    (far : 3 * modulus + low ≤ high) :
    let between := ((List.range 4).map (fun k => r + k * modulus)).filter (fun n => low ≤ n ∧ n < high)
    between.length = 3 ∨ between.length = 4 := by
  have numbers : (List.range 4).map (fun k => r + k * modulus) = [r, r + modulus, r + 2 * modulus, r + 3 * modulus] := by
    simp [List.range, List.range.loop]
  have second : low ≤ r + modulus ∧ r + modulus < high := by omega
  have third : low ≤ r + 2 * modulus ∧ r + 2 * modulus < high := by omega
  rw [numbers]
  by_cases first : low ≤ r
  · have below : r < high := by omega
    have fourth : low ≤ r + 3 * modulus := by omega
    by_cases last : r + 3 * modulus < high <;> simp [first, below, second, third, fourth, last]
  · have fourth : low ≤ r + 3 * modulus ∧ r + 3 * modulus < high := by omega
    simp [first, second, third, fourth]

theorem length_numbersOf : (numbersOf d).length = 3 ∨ (numbersOf d).length = 4 :=
  length_between (numberOf_lt d) (by norm_num) (by norm_num)

theorem nodup_numbersOf : (numbersOf d).Nodup := by
  apply List.Nodup.filter
  apply List.Nodup.map _ List.nodup_range
  intro j k same
  dsimp only at same
  omega

/-! ## The codes -/

def codesOf : List SharingCode := (numbersOf d).pmap codeOf (fun n member => ((mem_numbersOf d n).mp member).2.2)

theorem nodup_codesOf : (codesOf d).Nodup := by
  unfold codesOf
  refine List.Nodup.pmap ?_ (nodup_numbersOf d)
  intro m fits n fits' same
  have values := congrArg SharingCode.value same
  rw [value_codeOf, value_codeOf] at values
  exact Int.ofNat.inj values

variable {d} in
theorem mem_codesOf {code : SharingCode} : code ∈ codesOf d ↔ ∃ n ∈ numbersOf d, code.value = n := by
  rw [codesOf, List.mem_pmap]
  constructor
  · rintro ⟨n, member, rfl⟩
    refine ⟨n, member, ?_⟩
    rw [value_codeOf]
  · rintro ⟨n, member, value⟩
    refine ⟨n, member, code_of_value ?_⟩
    rw [value_codeOf, value]

/-- The codes that the service decodes to the words of a match are those of its
    numbers, and there are three or four of them. -/
theorem codes_of_match [Collation] : (codesOf d).Nodup ∧ ((codesOf d).length = 3 ∨ (codesOf d).length = 4) ∧
    ∀ code, fromSharingCode (some (utf16 code.text)) = .ok d ↔ code ∈ codesOf d := by
  refine ⟨nodup_codesOf d, ?_, ?_⟩
  · rw [codesOf, List.length_pmap]
    exact length_numbersOf d
  · intro code
    rw [mem_codesOf]
    constructor
    · intro returned
      have large : 2 ^ 135 ≤ code.value := by
        by_contra small
        obtain ⟨e, failed⟩ := (fromSharingCode_text_error code).mpr (not_le.mp small)
        rw [failed] at returned
        cases returned
      have words := fromSharingCode_words returned
      rw [words_numberOf, wordsOf_beBytes_iff] at words
      have high := value_lt code
      obtain ⟨n, value⟩ := Int.eq_ofNat_of_zero_le (value_nonneg code)
      rw [value] at words large high
      refine ⟨n, (mem_numbersOf d n).mpr ⟨words.symm, by exact_mod_cast large, by exact_mod_cast high⟩, value⟩
    · rintro ⟨n, member, value⟩
      obtain ⟨congruent, large, _⟩ := (mem_numbersOf d n).mp member
      obtain ⟨d', returned, words⟩ := fromSharingCode_text code (by rw [value]; exact_mod_cast large)
      rw [value, (wordsOf_beBytes_iff _ _).mpr congruent, ← words_numberOf] at words
      rw [returned, words_injective words]

end

end SteamworksService.CodesOfMatch
