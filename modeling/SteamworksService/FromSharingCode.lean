import SteamworksService.DotNet
import SteamworksService.SharingCodes

/-!
# `SharingCodeDecoded.FromSharingCode`

The decoder of the service, on every string and in every culture. It never checks
what it reads, so whether it answers depends only on how many bytes the number
behind the string takes; the main results say for which strings that is, and what
it answers.
-/
namespace SteamworksService.FromSharingCode
open Numerals DotNet SharingCodes

/-! ## The decoder -/

/-- The constant `DICTIONARY`. -/
def DICTIONARY : Utf16 := utf16 dictionary
/-- `DICTIONARY.IndexOf(c)`. -/
def indexOf (c : UInt16) : ℤ := digitOf DICTIONARY c

structure SharingCodeDecoded where
  matchId : UInt64
  outcomeId : UInt64
  token : UInt16
  deriving DecidableEq, Repr
/-- `String.Format("{0}|{1}|{2}", MatchId, OutcomeId, Token)`. -/
def SharingCodeDecoded.toPipeFormat (d : SharingCodeDecoded) : Utf16 :=
  decimal d.matchId.toNat ++ text "|" ++ decimal d.outcomeId.toNat ++ text "|" ++ decimal d.token.toNat
def SharingCodeDecoded.words (d : SharingCodeDecoded) : MatchWords :=
  ⟨d.matchId.toNat, d.outcomeId.toNat, d.token.toNat⟩

/-- The base-57 loop over the reversed characters. -/
def num (sc : Utf16) : ℤ := sc.reverse.foldl (fun num c => num * DICTIONARY.length + indexOf c) 0
/-- The unsigned fix: an 18-byte array gets a zero on top. -/
def unsignedFix (data : List UInt8) : List UInt8 := if data.length = 2 * 8 + 2 then data ++ [0] else data
/-- The three reads at fixed offsets. -/
def readWords (data : List UInt8) : Except Exception SharingCodeDecoded := do
  let matchId ← toUInt64 data 1
  let outcomeId ← toUInt64 data (1 + 8)
  let token ← toUInt16 data (1 + 2 * 8)
  return ⟨matchId, outcomeId, token⟩

section
variable [Collation]

/-- The code without a leading `CSGO` and without dashes. -/
def trim (sc : Utf16) : Except Exception Utf16 := do
  let sc ← if Collation.startsWith sc (text "CSGO") then substringFrom sc 4 else .ok sc
  return remove sc 0x2D
/-- `FromSharingCode`. Its catch block wraps whatever goes wrong; the message
    shows the code as far as it has been trimmed. -/
def fromSharingCode : Option Utf16 → Except Exception SharingCodeDecoded
  | none => .error ⟨.decodeSharingCodeFailedException, text "Error Decoding SC ", some .nullReferenceException⟩
  | some sc =>
    match trim sc with
    | .error e => .error ⟨.decodeSharingCodeFailedException, text "Error Decoding SC " ++ sc, some e.type⟩
    | .ok sc =>
      match readWords (unsignedFix (toByteArray (num sc))).reverse with
      | .ok result => .ok result
      | .error e => .error ⟨.decodeSharingCodeFailedException, text "Error Decoding SC " ++ sc, some e.type⟩

end

/-! ## The number behind a string -/

/-- The signed base-57 value of a string: the first character is the least
    significant digit and characters outside the dictionary count as `-1`. -/
def codeValue (sc : Utf16) : ℤ := value 57 (sc.map indexOf)

theorem num_eq (sc : Utf16) : num sc = codeValue sc := by
  have base : DICTIONARY.length = 57 := by decide
  rw [codeValue, ← horner_reverse, horner, ← List.map_reverse, List.foldl_map, num]
  simp only [base, Nat.cast_ofNat]

theorem data_length (n : ℤ) :
    (unsignedFix (toByteArray n)).reverse.length = if twosLength n = 18 then 19 else twosLength n := by
  unfold unsignedFix toByteArray
  by_cases eighteen : twosLength n = 18
  · simp [eighteen]
  · simp [eighteen]

/-- Once the array is 19 bytes long, its lower 18 bytes are the number modulo `2 ^ 144`. -/
theorem data_drop {n : ℤ} (low : 18 ≤ twosLength n) (high : twosLength n ≤ 19) :
    (unsignedFix (toByteArray n)).reverse.drop 1 = beBytes 18 n := by
  unfold unsignedFix toByteArray
  rcases Nat.lt_or_eq_of_le high with lower | nineteen
  · have eighteen : twosLength n = 18 := by omega
    simp [eighteen, beBytes]
  · have cut : (leBytes (18 + 1) n).take 18 = leBytes 18 n := leBytes_take 18 1 n
    simp [nineteen, List.drop_reverse, cut, beBytes]

/-! ## The reads -/

theorem bitConvert_ok {width : ℕ} {data : List UInt8} {startIndex : ℕ} (positive : 0 < width)
    (room : startIndex + width ≤ data.length) :
    bitConvert width data startIndex = .ok (leValue ((data.drop startIndex).take width)) := by
  have inside : ¬ data.length ≤ startIndex := by omega
  have long : ¬ data.length < startIndex + width := by omega
  simp [bitConvert, inside, long]

/-- A read that does not fit the array throws, never anything of the service's own. -/
theorem bitConvert_error {width : ℕ} {data : List UInt8} {startIndex : ℕ}
    (short : data.length < startIndex + width) : ∃ e, bitConvert width data startIndex = .error e := by
  by_cases outside : data.length ≤ startIndex
  · exact ⟨_, by simp only [bitConvert, outside, ↓reduceIte]; rfl⟩
  · exact ⟨_, by simp only [bitConvert, outside, short, ↓reduceIte]; rfl⟩

theorem leValue_lt_width (width : ℕ) {data : List UInt8} (length : data.length ≤ width) :
    leValue data < 256 ^ width :=
  (leValue_lt data).trans_le (Nat.pow_le_pow_right (by norm_num) length)

theorem readWords_ok {data : List UInt8} (room : 19 ≤ data.length) :
    ∃ d, readWords data = .ok d ∧ d.words = wordsOf (data.drop 1) := by
  have first := bitConvert_ok (by norm_num) (show 1 + 8 ≤ data.length by omega)
  have second := bitConvert_ok (by norm_num)
    (show 1 + 8 + 8 ≤ data.length by omega)
  have third := bitConvert_ok (by norm_num)
    (show 1 + 2 * 8 + 2 ≤ data.length by omega)
  refine ⟨_, by simp only [readWords, toUInt64, toUInt16, first, second, third]; rfl, ?_⟩
  have long : ∀ l : List UInt8, leValue (l.take 8) < 2 ^ 64 := fun l =>
    leValue_lt_width 8 (by simp)
  have short : ∀ l : List UInt8, leValue (l.take 2) < 2 ^ 16 := fun l =>
    leValue_lt_width 2 (by simp)
  simp only [SharingCodeDecoded.words, wordsOf, List.drop_drop, UInt64.toNat_ofNat', UInt16.toNat_ofNat',
    Nat.mod_eq_of_lt (long _), Nat.mod_eq_of_lt (short _)]

theorem readWords_error {data : List UInt8} (short : data.length < 19) : ∃ e, readWords data = .error e := by
  obtain ⟨e, failed⟩ := bitConvert_error (show data.length < 1 + 2 * 8 + 2 by omega)
  unfold readWords toUInt64 toUInt16
  rw [failed]
  rcases bitConvert 8 data 1 with first | first
  · exact ⟨first, rfl⟩
  · rcases bitConvert 8 data (1 + 8) with second | second
    · exact ⟨second, rfl⟩
    · exact ⟨e, rfl⟩

/-! ## Which strings are decoded -/

/-- The number takes at most 17 bytes. -/
def Short (n : ℤ) : Prop := -(2 ^ 135) ≤ n ∧ n < 2 ^ 135
instance (n : ℤ) : Decidable (Short n) := inferInstanceAs (Decidable (_ ∧ _))

theorem short_iff (n : ℤ) : Short n ↔ twosLength n ≤ 17 := (twosLength_le_iff (k := 17) (by norm_num) n).symm

/-- A string without its first four characters, if they count as a leading
    `CSGO`, and without dashes. -/
def strip (leading : Bool) (sc : Utf16) : Utf16 := remove (if leading then sc.drop 4 else sc) 0x2D

section
variable [Collation]

/-- What is read of a string. -/
def stripped (sc : Utf16) : Utf16 := strip (Collation.startsWith sc (text "CSGO")) sc

/-- `Substring(4)` fails only where it would leave nothing. -/
theorem trim_stripped (sc : Utf16) : trim sc = .ok (stripped sc) ∨ (∃ e, trim sc = .error e) ∧ stripped sc = [] := by
  unfold trim stripped strip
  cases Collation.startsWith sc (text "CSGO") with
  | false => exact .inl rfl
  | true =>
    by_cases long : 4 ≤ sc.length
    · left
      simp [substringFrom, long, bind, Except.bind, pure, Except.pure]
    · right
      refine ⟨⟨_, by simp only [substringFrom, long, if_true, if_false, raise]; rfl⟩, ?_⟩
      simp [remove, List.drop_eq_nil_of_le (show sc.length ≤ 4 by omega)]

/-- Every failure is reported as a `DecodeSharingCodeFailedException`. -/
theorem fromSharingCode_error_type {sc : Option Utf16} {e : Exception} (failed : fromSharingCode sc = .error e) :
    e.type = .decodeSharingCodeFailedException := by
  unfold fromSharingCode at failed
  split at failed
  · cases failed; rfl
  · split at failed
    · cases failed; rfl
    · split at failed
      · cases failed
      · cases failed; rfl

/-- `FromSharingCode` throws exactly on the strings whose number takes at most 17 bytes. -/
theorem fromSharingCode_error_iff (sc : Utf16) :
    (∃ e, fromSharingCode (some sc) = .error e) ↔ Short (codeValue (stripped sc)) := by
  rw [short_iff, fromSharingCode]
  rcases trim_stripped sc with trimmed | ⟨⟨e, failed⟩, nothing⟩
  · rw [trimmed]
    dsimp only
    rw [num_eq]
    have length := data_length (codeValue (stripped sc))
    by_cases short : twosLength (codeValue (stripped sc)) ≤ 17
    · have other : twosLength (codeValue (stripped sc)) ≠ 18 := by omega
      rw [if_neg other] at length
      have fewer : (unsignedFix (toByteArray (codeValue (stripped sc)))).reverse.length < 19 := by omega
      obtain ⟨e, failed⟩ := readWords_error fewer
      simp [failed, short]
    · have long : 19 ≤ (unsignedFix (toByteArray (codeValue (stripped sc)))).reverse.length := by
        rw [length]; split_ifs <;> omega
      obtain ⟨d, succeeded, _⟩ := readWords_ok long
      simp [succeeded, short]
  · have small : twosLength (codeValue []) ≤ 17 := (short_iff _).mp (by decide)
    simp [failed, nothing, small]

/-- A number of 18 or 19 bytes is answered by the words of its lower 18 bytes. -/
theorem fromSharingCode_ok {sc : Utf16} (long : ¬ Short (codeValue (stripped sc)))
    (fits : twosLength (codeValue (stripped sc)) ≤ 19) :
    ∃ d, fromSharingCode (some sc) = .ok d ∧ d.words = wordsOf (beBytes 18 (codeValue (stripped sc))) := by
  have trimmed : trim sc = .ok (stripped sc) := by
    rcases trim_stripped sc with trimmed | ⟨_, nothing⟩
    · exact trimmed
    · rw [nothing] at long
      exact absurd (by decide) long
  rw [short_iff, not_le] at long
  have length := data_length (codeValue (stripped sc))
  have room : 19 ≤ (unsignedFix (toByteArray (codeValue (stripped sc)))).reverse.length := by
    rw [length]; split_ifs <;> omega
  obtain ⟨d, succeeded, words⟩ := readWords_ok room
  rw [data_drop long fits] at words
  exact ⟨d, by simp only [fromSharingCode, trimmed, num_eq, succeeded], words⟩

end

/-! ## Well-formed codes -/

theorem units_of_mem {c : Char} (member : c ∈ dictionary) : units c = [UInt16.ofNat c.toNat] := by
  revert c
  decide

/-- A word over the dictionary has one code unit for each symbol. -/
theorem utf16_symbols {s : List Char} (symbols : ∀ c ∈ s, c ∈ dictionary) :
    utf16 s = s.map (fun c => UInt16.ofNat c.toNat) := by
  induction s with
  | nil => rfl
  | cons c s ih =>
    have head := units_of_mem (symbols c (by simp))
    have tail := ih (fun d member => symbols d (by simp [member]))
    rw [utf16, List.flatMap_cons, head]
    simpa [utf16] using tail

theorem indexOf_unit {c : Char} (member : c ∈ dictionary) :
    indexOf (UInt16.ofNat c.toNat) = digitOf dictionary c := by
  have back : ∀ d ∈ dictionary, Char.ofNat (UInt16.ofNat d.toNat).toNat = d := by decide
  rw [indexOf, DICTIONARY, utf16_symbols (fun _ inside => inside)]
  exact digitOf_map (g := fun u : UInt16 => Char.ofNat u.toNat) back (back c member)

theorem codeValue_symbols {s : List Char} (symbols : ∀ c ∈ s, c ∈ dictionary) :
    codeValue (utf16 s) = value 57 (s.map (digitOf dictionary)) := by
  rw [utf16_symbols symbols, codeValue, List.map_map]
  congr 1
  apply List.map_congr_left
  intro c member
  exact indexOf_unit (symbols c member)

theorem remove_group {group : List Char} (symbols : ∀ c ∈ group, c ∈ dictionary) :
    remove (utf16 ('-' :: group)) 0x2D = utf16 group := by
  have dash : utf16 ('-' :: group) = 0x2D :: utf16 group := rfl
  have others : ∀ c ∈ dictionary, UInt16.ofNat c.toNat ≠ 0x2D := by decide
  rw [dash, remove, List.filter_cons_of_neg (by decide), List.filter_eq_self, utf16_symbols symbols]
  intro u member
  obtain ⟨c, inside, rfl⟩ := List.mem_map.mp member
  simpa using others c (symbols c inside)

theorem strip_text (code : SharingCode) : strip true (utf16 code.text) = utf16 code.symbols := by
  have rest : (utf16 code.text).drop 4 = utf16 (code.groups.flatMap (fun group => '-' :: group)) := by
    rw [SharingCode.text, utf16, List.flatMap_append]
    exact List.drop_left' rfl
  rw [strip, if_pos rfl, rest, ← groups_flatten code]
  have pieces : ∀ gs : List (List Char), (∀ g ∈ gs, ∀ c ∈ g, c ∈ dictionary) →
      remove (utf16 (gs.flatMap (fun group => '-' :: group))) 0x2D = utf16 gs.flatten := by
    intro gs symbols
    induction gs with
    | nil => rfl
    | cons g gs ih =>
      have head := remove_group (symbols g (by simp))
      have tail := ih (fun h member => symbols h (by simp [member]))
      rw [List.flatMap_cons, List.flatten_cons, utf16, List.flatMap_append, remove, List.filter_append]
      simp only [remove, utf16] at head tail
      rw [head, tail]
      simp [utf16]
  exact pieces code.groups (fun g member c inside => mem_group code member inside)

/-- Behind the prefix and its dash a well-formed code has symbols and dashes only. -/
theorem text_graphic (code : SharingCode) : ∃ rest, utf16 code.text = text "CSGO" ++ 0x2D :: rest ∧
    ∀ c ∈ rest, isGraphic c = true := by
  have symbols : ∀ c ∈ '-' :: dictionary, units c = [UInt16.ofNat c.toNat] ∧ isGraphic (UInt16.ofNat c.toNat) = true := by
    decide
  have groups : code.groups = code.symbols.take 5 :: (List.range 4).map (fun i => (code.symbols.drop (5 * (i + 1))).take 5) :=
    rfl
  refine ⟨utf16 (code.symbols.take 5 ++
    ((List.range 4).map (fun i => (code.symbols.drop (5 * (i + 1))).take 5)).flatMap (fun group => '-' :: group)), ?_, ?_⟩
  · rw [SharingCode.text, groups, List.flatMap_cons, utf16, List.flatMap_append]
    rfl
  · intro c member
    obtain ⟨symbol, inside, unit⟩ := List.mem_flatMap.mp member
    have known : symbol ∈ '-' :: dictionary := by
      rcases List.mem_append.mp inside with first | others
      · exact List.mem_cons_of_mem _ (code.fromDictionary symbol (List.mem_of_mem_take first))
      · obtain ⟨group, grouped, inGroup⟩ := List.mem_flatMap.mp others
        rcases List.mem_cons.mp inGroup with rfl | inGroup
        · exact List.mem_cons_self
        · have own : group ∈ code.groups := by
            rw [groups]
            exact List.mem_cons_of_mem _ grouped
          exact List.mem_cons_of_mem _ (mem_group code own inGroup)
    obtain ⟨single, graphic⟩ := symbols symbol known
    rw [single, List.mem_singleton] at unit
    rw [unit]
    exact graphic

section
variable [Collation]

/-- Of a well-formed code its 25 symbols are read. -/
theorem stripped_text (code : SharingCode) : stripped (utf16 code.text) = utf16 code.symbols := by
  obtain ⟨rest, whole, graphic⟩ := text_graphic code
  have starts : Collation.startsWith (utf16 code.text) (DotNet.text "CSGO") = true := by
    rw [whole]
    exact Collation.word _ _ (by decide) graphic
  rw [stripped, starts, strip_text]

/-- The value of what is read of a code is the code's own value. -/
theorem codeValue_text (code : SharingCode) : codeValue (stripped (utf16 code.text)) = code.value := by
  rw [stripped_text, codeValue_symbols code.fromDictionary, SharingCode.value]

/-- A well-formed code is decoded to the words of its number modulo `2 ^ 144`
    exactly when that number takes more than 17 bytes. -/
theorem fromSharingCode_text (code : SharingCode) (large : 2 ^ 135 ≤ code.value) :
    ∃ d, fromSharingCode (some (utf16 code.text)) = .ok d ∧ d.words = wordsOf (beBytes 18 code.value) := by
  have fits : twosLength code.value ≤ 19 := by
    rw [twosLength_le_iff (by norm_num)]
    have lower := value_nonneg code
    have upper := value_lt code
    constructor
    · exact le_trans (by norm_num) lower
    · exact upper.trans (by norm_num)
  have long : ¬ Short code.value := fun short => absurd short.2 (not_lt.mpr large)
  rw [← codeValue_text] at long fits ⊢
  exact fromSharingCode_ok long fits

theorem fromSharingCode_text_error (code : SharingCode) :
    (∃ e, fromSharingCode (some (utf16 code.text)) = .error e) ↔ code.value < 2 ^ 135 := by
  rw [fromSharingCode_error_iff, codeValue_text]
  have lower := value_nonneg code
  constructor
  · exact fun short => short.2
  · exact fun small => ⟨le_trans (by norm_num) lower, small⟩

/-- A decoded code is decoded to the words of its number. -/
theorem fromSharingCode_words {code : SharingCode} {d : SharingCodeDecoded}
    (returned : fromSharingCode (some (utf16 code.text)) = .ok d) : d.words = wordsOf (beBytes 18 code.value) := by
  have large : 2 ^ 135 ≤ code.value := by
    by_contra small
    obtain ⟨e, failed⟩ := (fromSharingCode_text_error code).mpr (not_le.mp small)
    rw [failed] at returned
    cases returned
  obtain ⟨d', succeeded, words⟩ := fromSharingCode_text code large
  rw [succeeded] at returned
  cases returned
  exact words

/-- The decoder answers a code with the words of the 18-byte form of its number. -/
def Decodes (code : SharingCode) : Prop :=
  ∃ d bytes, fromSharingCode (some (utf16 code.text)) = .ok d ∧
    bytes.length = 18 ∧ (beValue bytes : ℤ) = code.value ∧ d.words = wordsOf bytes

/-- Among the codes whose number fits 18 bytes, exactly those whose number takes
    more than 17 of them are decoded. -/
theorem decodes_iff (code : SharingCode) (fits : code.value < 2 ^ 144) : Decodes code ↔ 2 ^ 135 ≤ code.value := by
  constructor
  · rintro ⟨d, bytes, succeeded, _⟩
    by_contra small
    obtain ⟨e, failed⟩ := (fromSharingCode_text_error code).mpr (not_le.mp small)
    rw [failed] at succeeded
    cases succeeded
  · intro large
    obtain ⟨d, succeeded, words⟩ := fromSharingCode_text code large
    refine ⟨d, beBytes 18 code.value, succeeded, beBytes_length 18 _, ?_, words⟩
    rw [beValue_beBytes, Int.emod_eq_of_lt (value_nonneg code) (fits.trans_le (by norm_num))]

end

/-- `CSGO-aCe7E-N7Wwp-wTHHr-JxUCi-kOijD`, the first code of the service's tests. -/
def sampleCode : SharingCode := ⟨"aCe7EN7WwpwTHHrJxUCikOijD".toList, by decide, by decide⟩
/-- `CSGO-AAAAA-AAAAA-AAAAA-AAAAA-AAAAA`, which stands for zero. -/
def zeroCode : SharingCode := ⟨List.replicate 25 'A', by decide, by decide⟩

theorem sampleCode_returned [Collation] : ∃ d, fromSharingCode (some (utf16 sampleCode.text)) = .ok d ∧
    d.words = wordsOf (beBytes 18 sampleCode.value) := fromSharingCode_text sampleCode (by decide)

theorem sampleCode_decodes : sampleCode.value < 2 ^ 144 ∧ @Decodes ordinal sampleCode :=
  ⟨by decide, (@decodes_iff ordinal sampleCode (by decide)).mpr (by decide)⟩

theorem zeroCode_not_decoded : ¬ ∃ _ : Collation, ∀ code : SharingCode, code.value < 2 ^ 144 → Decodes code := by
  rintro ⟨culture, all⟩
  obtain ⟨d, bytes, succeeded, _⟩ := all zeroCode (by decide)
  obtain ⟨e, failed⟩ := (fromSharingCode_text_error zeroCode).mpr (by decide)
  rw [failed] at succeeded
  cases succeeded

/-! ## Strings that are not codes -/

/-- Exactly 25 symbols of the dictionary. -/
def Symbols25 (s : Utf16) : Prop := s.length = 25 ∧ ∀ c ∈ s, c ∈ DICTIONARY
instance (s : Utf16) : Decidable (Symbols25 s) := inferInstanceAs (Decidable (_ ∧ _))
/-- The string is no sharing code: without a leading `CSGO` and without dashes it
    does not hold 25 symbols. -/
def Foreign (sc : Utf16) : Prop := ¬ Symbols25 (strip ((text "CSGO").isPrefixOf sc) sc)
instance (sc : Utf16) : Decidable (Foreign sc) := inferInstanceAs (Decidable (¬ _))

section
variable [Collation]

/-- A string that is no sharing code is rejected with the decoder's own exception. -/
def RejectsForeign (sc : Utf16) : Prop :=
  Foreign sc → ∃ e, fromSharingCode (some sc) = .error e ∧ e.type = .decodeSharingCodeFailedException

theorem rejected_iff (sc : Utf16) :
    (∃ e, fromSharingCode (some sc) = .error e ∧ e.type = .decodeSharingCodeFailedException) ↔
      Short (codeValue (stripped sc)) := by
  rw [← fromSharingCode_error_iff]
  constructor
  · rintro ⟨e, failed, _⟩
    exact ⟨e, failed⟩
  · rintro ⟨e, failed⟩
    exact ⟨e, failed, fromSharingCode_error_type failed⟩

/-- Strings that are not codes are rejected exactly when the signed base-57 value
    of what is read of them fits 17 bytes; no other property of the string is
    looked at. -/
theorem rejectsForeign_iff (sc : Utf16) : RejectsForeign sc ↔ ¬ Foreign sc ∨ Short (codeValue (stripped sc)) := by
  rw [RejectsForeign, rejected_iff]
  exact imp_iff_not_or

/-- A string of at most 23 characters besides prefix and dashes is always rejected. -/
theorem short_of_length {sc : Utf16} (length : (stripped sc).length ≤ 23) : RejectsForeign sc := by
  intro _
  rw [rejected_iff]
  have size : ((stripped sc).map indexOf).length ≤ 23 := by simpa using length
  have power : (57 : ℤ) ^ ((stripped sc).map indexOf).length ≤ 57 ^ 23 := pow_le_pow_right₀ (by norm_num) size
  have lower := neg_lt_value (b := 57) (by norm_num) ((stripped sc).map indexOf) (by
    intro d member
    obtain ⟨c, _, rfl⟩ := List.mem_map.mp member
    exact neg_one_le_digitOf)
  have upper := Numerals.value_lt (b := 57) (by norm_num) ((stripped sc).map indexOf) (by
    intro d member
    obtain ⟨c, _, rfl⟩ := List.mem_map.mp member
    exact digitOf_lt (show DICTIONARY ≠ [] by decide))
  constructor
  · exact le_trans (by norm_num) ((neg_le_neg power).trans lower.le)
  · exact (upper.trans_le power).trans (by norm_num)

end

/-- The sample code with its first symbol misread as a small L, which the dictionary does not have. -/
def misread : Utf16 := text "CSGO-lCe7E-N7Wwp-wTHHr-JxUCi-kOijD"

theorem misread_not_rejected : ¬ ∃ _ : Collation, ∀ sc : Utf16, RejectsForeign sc := by
  rintro ⟨culture, all⟩
  have short := (rejected_iff misread).mp (all misread (by decide))
  have starts : Collation.startsWith misread (DotNet.text "CSGO") = true :=
    Collation.word (DotNet.text "CSGO") (DotNet.text "lCe7E-N7Wwp-wTHHr-JxUCi-kOijD") (by decide) (by decide)
  rw [stripped, starts] at short
  revert short
  decide

end SteamworksService.FromSharingCode
