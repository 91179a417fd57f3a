import SteamworksService.Decoders
import SteamworksService.Responses
import Mathlib.Algebra.Order.Ring.Abs

/-!
# Codes that name the same match

Well-formed codes reach up to `57 ^ 25`, past the `2 ^ 144` that 18 bytes hold,
and the decoder skips the nineteenth byte. The results say which codes it maps
to one request.
-/
namespace SteamworksService.DistinctCodes
open Numerals DotNet SharingCodes FromSharingCode Decoders Responses

/-! ## Codes and their numbers -/

/-- The number of a code determines the code. -/
theorem code_of_value {a b : SharingCode} (same : a.value = b.value) : a = b := by
  have digits : ∀ code : SharingCode, ∀ d ∈ code.symbols.map (digitOf dictionary), 0 ≤ d ∧ d < 57 :=
    fun code d member => ⟨digits_nonneg code d member, digits_lt code d member⟩
  have mapped : a.symbols.map (digitOf dictionary) = b.symbols.map (digitOf dictionary) :=
    value_injective (digits a) (digits b) (by simp [a.twentyFive, b.twentyFive]) same
  have symbols : a.symbols = b.symbols := map_digitOf_injective a.fromDictionary b.fromDictionary mapped
  cases a
  cases b
  cases symbols
  rfl

/-- Two codes whose numbers differ by a multiple of `2 ^ 144`; there is room for three of them. -/
def Wraps (a b : SharingCode) : Prop := ∃ k : ℤ, 1 ≤ k ∧ k ≤ 3 ∧ |a.value - b.value| = k * 2 ^ 144

theorem wraps_iff {a b : SharingCode} (different : a.text ≠ b.text) :
    Wraps a b ↔ a.value ≡ b.value [ZMOD 256 ^ 18] := by
  have apart : a.value ≠ b.value := fun same => different (congrArg SharingCode.text (code_of_value same))
  have power : (256 : ℤ) ^ 18 = 2 ^ 144 := by norm_num
  rw [power]
  constructor
  · rintro ⟨k, _, _, difference⟩
    apply Int.ModEq.symm
    rw [Int.modEq_iff_dvd, ← dvd_abs, difference]
    exact dvd_mul_left _ k
  · intro wrapped
    have divides := Int.modEq_iff_dvd.mp wrapped.symm
    rw [← dvd_abs] at divides
    obtain ⟨k, difference⟩ := divides
    have positive : 0 < |a.value - b.value| := abs_pos.mpr (sub_ne_zero.mpr apart)
    have bound : |a.value - b.value| < 57 ^ 25 := by
      have lowA := value_nonneg a
      have lowB := value_nonneg b
      have highA := value_lt a
      have highB := value_lt b
      rw [abs_lt]
      constructor <;> linarith
    refine ⟨k, ?_, ?_, by rw [difference, mul_comm]⟩
    · by_contra small
      have nonpos : (2 : ℤ) ^ 144 * k ≤ 0 := mul_nonpos_of_nonneg_of_nonpos (by norm_num) (by omega)
      omega
    · by_contra large
      have far : (2 : ℤ) ^ 144 * 4 ≤ 2 ^ 144 * k := mul_le_mul_of_nonneg_left (by omega) (by norm_num)
      have gap : (57 : ℤ) ^ 25 < 2 ^ 144 * 4 := by norm_num
      linarith

/-- Numbers of at most 18 bytes never wrap. -/
theorem not_wraps_of_small {a b : SharingCode} (smallA : a.value < 2 ^ 144) (smallB : b.value < 2 ^ 144) :
    ¬ Wraps a b := by
  rintro ⟨k, low, _, difference⟩
  have lowA := value_nonneg a
  have lowB := value_nonneg b
  have bound : |a.value - b.value| < 2 ^ 144 := by
    rw [abs_lt]
    constructor <;> linarith
  have far : (1 : ℤ) * 2 ^ 144 ≤ k * 2 ^ 144 := mul_le_mul_of_nonneg_right low (by norm_num)
  linarith

/-! ## Requests -/

theorem split_toPipeFormat (d : SharingCodeDecoded) :
    split 0x7C d.toPipeFormat = [decimal d.matchId.toNat, decimal d.outcomeId.toNat, decimal d.token.toNat] := by
  have cut : d.toPipeFormat = decimal d.matchId.toNat ++ 0x7C :: (decimal d.outcomeId.toNat ++
      0x7C :: decimal d.token.toNat) := by
    have bar : DotNet.text "|" = [0x7C] := rfl
    rw [SharingCodeDecoded.toPipeFormat, bar]
    simp only [List.append_assoc, List.cons_append, List.nil_append]
  rw [cut, split_piece (bar_not_mem_decimal _), split_piece (bar_not_mem_decimal _), split_last (bar_not_mem_decimal _)]

/-- A request names one triple. -/
theorem toPipeFormat_injective {d e : SharingCodeDecoded} (same : d.toPipeFormat = e.toPipeFormat) : d.words = e.words := by
  have pieces := congrArg (split 0x7C) same
  rw [split_toPipeFormat, split_toPipeFormat] at pieces
  simp only [List.cons.injEq, and_true] at pieces
  obtain ⟨first, second, third⟩ := pieces
  have number : ∀ {m n : ℕ}, decimal m = decimal n → m = n := by
    intro m n equal
    rw [← magnitude_decimal m, ← magnitude_decimal n, equal]
  simp only [SharingCodeDecoded.words, number first, number second, number third]

theorem words_injective {d e : SharingCodeDecoded} (same : d.words = e.words) : d = e := by
  obtain ⟨matchId, outcomeId, token⟩ := d
  obtain ⟨matchId', outcomeId', token'⟩ := e
  simp only [SharingCodeDecoded.words, MatchWords.mk.injEq, UInt64.toNat_inj, UInt16.toNat_inj] at same
  obtain ⟨rfl, rfl, rfl⟩ := same
  rfl

/-- Two codes that are decoded are asked for as two matches exactly when their
    numbers do not differ by a multiple of `2 ^ 144`. -/
theorem requests_distinct_iff [Collation] (a b : SharingCode) (different : a.text ≠ b.text) (d e : SharingCodeDecoded)
    (returnedA : fromSharingCode (some (utf16 a.text)) = .ok d) (returnedB : fromSharingCode (some (utf16 b.text)) = .ok e) :
    (d ≠ e ∧ d.toPipeFormat ≠ e.toPipeFormat) ↔ ¬ Wraps a b := by
  have wordsA := fromSharingCode_words returnedA
  have wordsB := fromSharingCode_words returnedB
  have same : d.words = e.words ↔ Wraps a b := by
    rw [wordsA, wordsB, wordsOf_beBytes_iff, wraps_iff different]
  rw [← same]
  constructor
  · rintro ⟨apart, _⟩ equal
    exact apart (words_injective equal)
  · intro apart
    refine ⟨?_, fun equal => apart (toPipeFormat_injective equal)⟩
    rintro rfl
    exact apart rfl

/-- `CSGO-be9yD-Mz7O4-56TuV-GAWkr-rBTrU`, whose number is that of the sample code and `2 ^ 144`. -/
def wrappedCode : SharingCode := ⟨"be9yDMz7O456TuVGAWkrrBTrU".toList, by decide, by decide⟩

theorem sampleCode_distinct : ∃ d e, @fromSharingCode ordinal (some (utf16 sampleCode.text)) = .ok d ∧
    @fromSharingCode ordinal (some (utf16 doubledCode.text)) = .ok e ∧ d ≠ e ∧ d.toPipeFormat ≠ e.toPipeFormat := by
  obtain ⟨d, returned, _⟩ := @sampleCode_returned ordinal
  obtain ⟨e, returned', _⟩ := @fromSharingCode_text ordinal doubledCode (by decide)
  have apart : ¬ Wraps sampleCode doubledCode := by
    rw [wraps_iff (by decide)]
    decide
  exact ⟨d, e, returned, returned', (@requests_distinct_iff ordinal sampleCode doubledCode (by decide) d e returned returned').mpr apart⟩

theorem wrappedCode_collides : ¬ ∃ _ : Collation, ∀ (a b : SharingCode) (d e : SharingCodeDecoded), a.text ≠ b.text →
    fromSharingCode (some (utf16 a.text)) = .ok d → fromSharingCode (some (utf16 b.text)) = .ok e →
      d ≠ e ∧ d.toPipeFormat ≠ e.toPipeFormat := by
  rintro ⟨culture, all⟩
  obtain ⟨d, returned, words⟩ := sampleCode_returned
  obtain ⟨e, returned', words'⟩ := fromSharingCode_text wrappedCode (by decide)
  obtain ⟨apart, _⟩ := all sampleCode wrappedCode d e (by decide) returned returned'
  apply apart
  apply words_injective
  rw [words, words', wordsOf_beBytes_iff]
  decide

end SteamworksService.DistinctCodes
