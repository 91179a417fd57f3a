import SteamworksService.Numerals

/-!
# Sharing codes

What a well-formed sharing code is and what it stands for: a number in base 57,
whose 18 big-endian bytes hold two 64-bit words and a 16-bit word. Both decoders
are compared with this meaning.
-/
namespace SteamworksService.SharingCodes
open Numerals

/-- The symbols of a sharing code in the order of their digits. -/
def dictionary : List Char := "ABCDEFGHJKLMNOPQRSTUVWXYZabcdefhijkmnopqrstuvwxyz23456789".toList

/-- A sharing code `CSGO-xxxxx-xxxxx-xxxxx-xxxxx-xxxxx`, by its 25 symbols. -/
structure SharingCode where
  symbols : List Char
  twentyFive : symbols.length = 25
  fromDictionary : ∀ c ∈ symbols, c ∈ dictionary
/-- The five groups of five symbols. -/
def SharingCode.groups (code : SharingCode) : List (List Char) :=
  (List.range 5).map (fun i => (code.symbols.drop (5 * i)).take 5)
/-- The code as it is written. -/
def SharingCode.text (code : SharingCode) : List Char :=
  "CSGO".toList ++ code.groups.flatMap (fun group => '-' :: group)
/-- The number that the code stands for; its first symbol is the least significant digit. -/
def SharingCode.value (code : SharingCode) : ℤ := Numerals.value 57 (code.symbols.map (digitOf dictionary))

/-- The numbers that identify a match. -/
structure MatchWords where
  matchId : ℕ
  outcomeId : ℕ
  token : ℕ
  deriving DecidableEq, Repr
/-- The little-endian words of 18 bytes: bytes 0 to 7, 8 to 15 and 16 to 17. -/
def wordsOf (bytes : List UInt8) : MatchWords :=
  ⟨leValue (bytes.take 8), leValue ((bytes.drop 8).take 8), leValue ((bytes.drop 16).take 2)⟩

theorem dictionary_length : dictionary.length = 57 := rfl

section
variable (code : SharingCode)

theorem digits_nonneg : ∀ d ∈ code.symbols.map (digitOf dictionary), 0 ≤ d := by
  intro d member
  obtain ⟨c, inside, rfl⟩ := List.mem_map.mp member
  exact digitOf_nonneg (code.fromDictionary c inside)
theorem digits_lt : ∀ d ∈ code.symbols.map (digitOf dictionary), d < 57 := by
  intro d member
  obtain ⟨c, inside, rfl⟩ := List.mem_map.mp member
  have below := digitOf_lt (c := c) (show dictionary ≠ [] by decide)
  rwa [dictionary_length] at below

theorem value_nonneg : 0 ≤ code.value := Numerals.value_nonneg (by norm_num) (digits_nonneg code)
/-- A code stands for a number of at most 146 bits, two more than the 18 bytes have. -/
theorem value_lt : code.value < 57 ^ 25 := by
  have bound := Numerals.value_lt (by norm_num) _ (digits_lt code)
  rwa [List.length_map, code.twentyFive] at bound

/-- The groups are the symbols cut into five pieces. -/
theorem groups_flatten : code.groups.flatten = code.symbols := by
  have last : code.symbols.drop 25 = [] := List.drop_eq_nil_of_le code.twentyFive.le
  have cut : ∀ n, (code.symbols.drop n).take 5 ++ code.symbols.drop (n + 5) = code.symbols.drop n := by
    intro n
    rw [← List.drop_drop, List.take_append_drop]
  simp only [SharingCode.groups, List.range, List.range.loop, List.map_cons, List.map_nil,
    List.flatten_cons, List.flatten_nil, List.append_nil]
  calc _ = (code.symbols.drop 0).take 5 ++ ((code.symbols.drop 5).take 5 ++ ((code.symbols.drop 10).take 5 ++
        ((code.symbols.drop 15).take 5 ++ ((code.symbols.drop 20).take 5 ++ code.symbols.drop 25)))) := by
        simp [last]
    _ = code.symbols := by rw [cut 20, cut 15, cut 10, cut 5, cut 0, List.drop_zero]

theorem mem_group {group : List Char} (member : group ∈ code.groups) {c : Char} (inside : c ∈ group) :
    c ∈ dictionary := by
  apply code.fromDictionary
  rw [← groups_flatten code]
  exact List.mem_flatten_of_mem member inside

end

/-- The words of 18 bytes determine the bytes. -/
theorem wordsOf_injective {a b : List UInt8} (lengthA : a.length = 18) (lengthB : b.length = 18)
    (same : wordsOf a = wordsOf b) : a = b := by
  have pieces : ∀ l : List UInt8, l.length = 18 → l = l.take 8 ++ ((l.drop 8).take 8 ++ (l.drop 16).take 2) := by
    intro l length
    have tail : (l.drop 16).take 2 = (l.drop 8).drop 8 := by
      rw [List.drop_drop, List.take_of_length_le (by simp [length])]
    rw [tail, List.take_append_drop, List.take_append_drop]
  simp only [wordsOf, MatchWords.mk.injEq] at same
  obtain ⟨first, second, third⟩ := same
  rw [pieces a lengthA, pieces b lengthB, leValue_injective (by simp [lengthA, lengthB]) first,
    leValue_injective (by simp [lengthA, lengthB]) second, leValue_injective (by simp [lengthA, lengthB]) third]

end SteamworksService.SharingCodes
