import SteamworksService.Decoders
import Mathlib.Tactic.IntervalCases

/-!
# Requests to the read loop

What the connection's read loop asks the Game Coordinator for, given the bytes
in its buffer, and what becomes of the request that the service writes: the
service sends the decoded numbers as text, and the connection decodes that text
as if it were a sharing code.
-/
namespace SteamworksService.ReadLoop
open Numerals DotNet SharingCodes FromSharingCode DecodeSharecode Decoders

/-! ## The connection's side -/

/-- `CMsgGCCStrike15_v2_MatchListRequestFullGameInfo`. -/
structure FullGameInfo where
  matchid : UInt64
  outcomeid : UInt64
  token : UInt32
  deriving DecidableEq, Repr
def FullGameInfo.words (fgi : FullGameInfo) : MatchWords := ⟨fgi.matchid.toNat, fgi.outcomeid.toNat, fgi.token.toNat⟩

/-- The memory from `szMsg` on after `read` has stored a chunk; what the chunk
    does not reach stays as it was. -/
def readInto (szMsg chunk : List UInt8) : List UInt8 := chunk ++ szMsg.drop chunk.length
/-- `std::string(szMsg)`: the bytes before the first NUL. -/
def cString (szMsg : List UInt8) : List UInt8 := szMsg.takeWhile (· ≠ 0)
/-- The request that the read loop builds; the result of `DecodeSharecode` is not looked at. -/
def fullGameInfo (szMsg : List UInt8) : FullGameInfo :=
  let ds := (decodeSharecode (cString szMsg)).2
  { matchid := ds.matchId, outcomeid := ds.outcomeId, token := ds.token.toUInt32 }

/-! ## The service's side -/

/-- What `Environment.NewLine` can be. -/
def newLines : List (List Char) := [['\n'], ['\r', '\n']]
/-- The bytes that a `StreamWriter` puts out for a string of ASCII characters. -/
def asciiBytes (s : Utf16) : List UInt8 := s.map (fun u => UInt8.ofNat u.toNat)
/-- The bytes of `sw.WriteLine(pipeMessage)`. -/
def pipeRequest (d : SharingCodeDecoded) (newLine : List Char) : List UInt8 :=
  asciiBytes (d.toPipeFormat ++ utf16 newLine)

/-- The request line of a match in characters. -/
def pipeText (w : MatchWords) (newLine : List Char) : List Char :=
  Nat.toDigits 10 w.matchId ++ ['|'] ++ Nat.toDigits 10 w.outcomeId ++ ['|'] ++ Nat.toDigits 10 w.token ++ newLine
/-- That line read as a sharing code: `2` to `9` are digits 49 to 56, everything else counts as `-1`. -/
def pipeValue (w : MatchWords) (newLine : List Char) : ℤ :=
  value 57 ((pipeText w newLine).map (digitOf dictionary))

/-! ## The text on the pipe -/

def pipeSymbols : List Char := "0123456789|\r\n".toList

theorem digit_mem {c : Char} (digit : c.isDigit = true) : c ∈ pipeSymbols := by
  have range : 48 ≤ c.toNat ∧ c.toNat ≤ 57 := by
    simpa [Char.isDigit, UInt32.le_iff_toNat_le] using digit
  obtain ⟨low, high⟩ := range
  have same : c = Char.ofNat c.toNat := (Char.ofNat_toNat c).symm
  rw [same]
  generalize c.toNat = n at low high
  interval_cases n <;> decide

theorem pipeText_symbols (w : MatchWords) {newLine : List Char} (line : newLine ∈ newLines) :
    ∀ c ∈ pipeText w newLine, c ∈ pipeSymbols := by
  have number : ∀ n, ∀ c ∈ Nat.toDigits 10 n, c ∈ pipeSymbols := fun n c member =>
    digit_mem (Nat.isDigit_of_mem_toDigits (by norm_num) (by norm_num) member)
  have ends : ∀ s ∈ newLines, ∀ c ∈ s, c ∈ pipeSymbols := by decide
  have bar : '|' ∈ pipeSymbols := by decide
  intro c member
  simp only [pipeText, List.mem_append, List.mem_singleton] at member
  rcases member with ((((inside | rfl) | inside) | rfl) | inside) | inside
  · exact number _ c inside
  · exact bar
  · exact number _ c inside
  · exact bar
  · exact number _ c inside
  · exact ends newLine line c inside

theorem pipeRequest_eq (d : SharingCodeDecoded) {newLine : List Char} (line : newLine ∈ newLines) :
    pipeRequest d newLine = bytes (pipeText d.words newLine) := by
  have joined : d.toPipeFormat ++ utf16 newLine = utf16 (pipeText d.words newLine) := by
    simp [SharingCodeDecoded.toPipeFormat, decimal, text, pipeText, SharingCodeDecoded.words, utf16]
  have each : ∀ c ∈ pipeSymbols, asciiBytes (units c) = [UInt8.ofNat c.toNat] := by decide
  rw [pipeRequest, joined]
  have symbols := pipeText_symbols d.words line
  generalize pipeText d.words newLine = s at symbols
  induction s with
  | nil => rfl
  | cons c s ih =>
    have head := each c (symbols c (by simp))
    have tail := ih (fun e member => symbols e (by simp [member]))
    rw [utf16, List.flatMap_cons, asciiBytes, List.map_append]
    rw [asciiBytes] at head
    rw [head]
    exact congrArg (_ :: ·) tail

/-- Text without a dash and without a capital C is left alone by the regex. -/
theorem erased_of_plain {s : List UInt8} (plain : ∀ c ∈ s, c ≠ dash ∧ c ≠ 67) : erased s = s := by
  induction s with
  | nil => rfl
  | cons c s ih =>
    obtain ⟨notDash, notC⟩ := plain c (by simp)
    have other : ¬ csgo <+: c :: s := by
      rw [show csgo = 67 :: csgo.tail by decide, List.cons_prefix_cons]
      exact fun both => notC both.1.symm
    rw [erased_cons notDash other, ih (fun d member => plain d (by simp [member]))]

theorem cString_readInto {szMsg s : List UInt8} (noNul : ∀ c ∈ s, c ≠ 0) :
    cString (readInto szMsg (s ++ [0])) = s := by
  rw [cString, readInto, List.append_assoc, List.takeWhile_append_of_pos (by simpa using noNul)]
  simp

theorem fullGameInfo_words (szMsg : List UInt8) :
    (fullGameInfo szMsg).words = wordsOf (beBytes 18 (horner 57 ((reversed (cString szMsg)).map find))) := by
  have words := decodeSharecode_words (cString szMsg)
  have small : leValue ((beBytes 18 (horner 57 ((reversed (cString szMsg)).map find))).drop 16 |>.take 2) < 2 ^ 32 :=
    (leValue_lt_width 2 (by simp)).trans (by norm_num)
  rw [← words]
  simp only [DecodedSharecode.words, wordsOf, MatchWords.mk.injEq] at words
  obtain ⟨_, _, token⟩ := words
  simp only [fullGameInfo, FullGameInfo.words, DecodedSharecode.words, UInt64.toNat_toUInt32]
  rw [Nat.mod_eq_of_lt (by rw [token]; exact small)]

/-- The read loop reads the service's request as the number of its text. -/
theorem fullGameInfo_pipeRequest (szMsg : List UInt8) (d : SharingCodeDecoded) {newLine : List Char}
    (line : newLine ∈ newLines) :
    (fullGameInfo (readInto szMsg (pipeRequest d newLine ++ [0]))).words =
      wordsOf (beBytes 18 (pipeValue d.words newLine)) := by
  have symbols := pipeText_symbols d.words line
  have plain : ∀ c ∈ pipeSymbols, UInt8.ofNat c.toNat ≠ 0 ∧ UInt8.ofNat c.toNat ≠ dash ∧ UInt8.ofNat c.toNat ≠ 67 ∧
      Char.ofNat (UInt8.ofNat c.toNat).toNat = c := by decide
  have each : ∀ u ∈ bytes (pipeText d.words newLine), u ≠ 0 ∧ u ≠ dash ∧ u ≠ 67 := by
    intro u member
    obtain ⟨c, inside, rfl⟩ := List.mem_map.mp member
    obtain ⟨notNul, notDash, notC, _⟩ := plain c (symbols c inside)
    exact ⟨notNul, notDash, notC⟩
  have left : regexReplace (bytes (pipeText d.words newLine)) = bytes (pipeText d.words newLine) :=
    erased_of_plain (fun u member => (each u member).2)
  have digits : (bytes (pipeText d.words newLine)).map find = (pipeText d.words newLine).map (digitOf dictionary) := by
    rw [bytes, List.map_map]
    apply List.map_congr_left
    intro c member
    obtain ⟨_, _, _, own⟩ := plain c (symbols c member)
    exact digitOf_map (g := fun b : UInt8 => Char.ofNat b.toNat) ofNat_byte own
  rw [fullGameInfo_words, pipeRequest_eq d line, cString_readInto (fun u member => (each u member).1), reversed, left,
    List.map_reverse, horner_reverse, digits, pipeValue]

/-- The service's request fits one `read` of the connection. -/
theorem pipeRequest_length (d : SharingCodeDecoded) {newLine : List Char} (line : newLine ∈ newLines) :
    (pipeRequest d newLine ++ [0]).length ≤ 255 := by
  have number : ∀ n : ℕ, n < 10 ^ 20 → (Nat.toDigits 10 n).length ≤ 20 := fun n small =>
    (Nat.length_toDigits_le_iff (by norm_num) (by norm_num)).mpr small
  have first := number d.matchId.toNat (d.matchId.toNat_lt.trans (by norm_num))
  have second := number d.outcomeId.toNat (d.outcomeId.toNat_lt.trans (by norm_num))
  have third := number d.token.toNat (d.token.toNat_lt.trans (by norm_num))
  have last : newLine.length ≤ 2 := by
    revert newLine
    decide
  rw [pipeRequest_eq d line]
  simp only [bytes, pipeText, SharingCodeDecoded.words, List.length_append, List.length_map, List.length_singleton]
  omega

/-- The request that reaches the Game Coordinator names the match that the
    service decoded exactly when the decimal text of the match happens to be
    congruent, read as a sharing code, to the number it was made from. -/
theorem pipeRequest_preserved_iff [Collation] (code : SharingCode) (d : SharingCodeDecoded)
    (returned : fromSharingCode (some (utf16 code.text)) = .ok d) (newLine : List Char)
    (line : newLine ∈ newLines) (szMsg : List UInt8) :
    (fullGameInfo (readInto szMsg (pipeRequest d newLine ++ [0]))).words = d.words ↔
      pipeValue (wordsOf (beBytes 18 code.value)) newLine ≡ code.value [ZMOD 256 ^ 18] := by
  rw [fullGameInfo_pipeRequest szMsg d line, fromSharingCode_words returned, wordsOf_beBytes_iff]

/-- The sample code of the tests is asked for under other numbers. -/
theorem sampleCode_changed : ∃ d, @fromSharingCode ordinal (some (utf16 sampleCode.text)) = .ok d ∧
    (fullGameInfo (readInto (List.replicate 256 0) (pipeRequest d ['\n'] ++ [0]))).words ≠ d.words := by
  obtain ⟨d, returned, _⟩ := @sampleCode_returned ordinal
  have exact' := @pipeRequest_preserved_iff ordinal sampleCode d returned ['\n'] (by decide) (List.replicate 256 0)
  refine ⟨d, returned, ?_⟩
  rw [ne_eq, exact']
  decide +kernel

theorem pipeRequest_not_preserved : ¬ ∃ _ : Collation, ∀ (code : SharingCode) (d : SharingCodeDecoded),
    fromSharingCode (some (utf16 code.text)) = .ok d → ∀ newLine ∈ newLines, ∀ szMsg : List UInt8,
      (fullGameInfo (readInto szMsg (pipeRequest d newLine ++ [0]))).words = d.words := by
  rintro ⟨culture, all⟩
  obtain ⟨d, returned, words⟩ := sampleCode_returned
  have kept := all sampleCode d returned ['\n'] (by decide) (List.replicate 256 0)
  rw [fullGameInfo_pipeRequest _ d (by decide), words, wordsOf_beBytes_iff] at kept
  revert kept
  decide +kernel

end SteamworksService.ReadLoop
