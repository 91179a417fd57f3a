import SteamworksService.DotNet
import Mathlib.Data.List.TakeWhile

/-!
# The stream reader

`StreamReader` on a stream of bytes: decoding UTF-8 and `ReadLine`. What the
connection writes never starts with a byte order mark, so the reader stays with
UTF-8.
-/
namespace SteamworksService.StreamReader
open DotNet

/-! ## Decoding -/

/-- How many of the bytes after `first` belong to the same ill-formed sequence:
    those that could still have become a character. -/
def illFormed (first : UInt8) (rest : List UInt8) : ℕ :=
  let low : UInt8 := if first = 0xE0 then 0xA0 else if first = 0xF0 then 0x90 else 0x80
  let high : UInt8 := if first = 0xED then 0x9F else if first = 0xF4 then 0x8F else 0xBF
  match rest with
  | second :: third :: _ =>
    if 0xE0 ≤ first ∧ first ≤ 0xF4 ∧ low ≤ second ∧ second ≤ high then
      if 0xF0 ≤ first ∧ 0x80 ≤ third ∧ third ≤ 0xBF then 2 else 1
    else 0
  | [second] => if 0xE0 ≤ first ∧ first ≤ 0xF4 ∧ low ≤ second ∧ second ≤ high then 1 else 0
  | [] => 0

/-- The characters of UTF-8 text; U+FFFD stands for each ill-formed sequence.
    `skip` counts the bytes left of the current one. -/
def decodeUtf8From : ℕ → List UInt8 → List Char
  | _, [] => []
  | skip + 1, _ :: rest => decodeUtf8From skip rest
  | 0, first :: rest =>
    match (first :: rest).toByteArray.utf8DecodeChar? 0 with
    | some c => c :: decodeUtf8From (c.utf8Size - 1) rest
    | none => '\uFFFD' :: decodeUtf8From (illFormed first rest) rest
def decodeUtf8 (bytes : List UInt8) : List Char := decodeUtf8From 0 bytes
def encodeUtf8 (s : List Char) : List UInt8 := s.flatMap String.utf8EncodeChar

/-! ## Lines -/

def isBreak (c : UInt16) : Bool := c = 0x0A || c = 0x0D
/-- `ReadLine` on the text that is left: `null` at the end of the stream, else
    the text up to LF, CR, CRLF or the end. -/
def readLine (s : Utf16) : Option (Utf16 × Utf16) :=
  if s = [] then none
  else
    let line := s.takeWhile (!isBreak ·)
    match s.dropWhile (!isBreak ·) with
    | 0x0D :: 0x0A :: rest => some (line, rest)
    | _ :: rest => some (line, rest)
    | [] => some (line, [])

theorem readLine_shorter {s line rest : Utf16} (read : readLine s = some (line, rest)) : rest.length < s.length := by
  have shorter : (s.dropWhile (!isBreak ·)).length ≤ s.length := (List.dropWhile_suffix _).length_le
  unfold readLine at read
  by_cases empty : s = []
  · simp [empty] at read
  · rw [if_neg empty] at read
    have nonempty : 0 < s.length := List.length_pos_iff.mpr empty
    split at read
    · next after same =>
      cases read
      rw [same] at shorter
      simp only [List.length_cons] at shorter
      omega
    · next c after _ same =>
      cases read
      rw [same] at shorter
      simp only [List.length_cons] at shorter
      omega
    · cases read
      exact nonempty

/-- The lines that repeated calls of `ReadLine` return before `null`. -/
def readLines (s : Utf16) : List Utf16 :=
  match _h : readLine s with
  | none => []
  | some (line, rest) => line :: readLines rest
termination_by s.length
decreasing_by exact readLine_shorter _h

/-- The lines of a stream of bytes. -/
def lines (stream : List UInt8) : List Utf16 := readLines (utf16 (decodeUtf8 stream))

/-! ## Well-formed text -/

theorem decodeUtf8From_skip (first rest : List UInt8) :
    decodeUtf8From first.length (first ++ rest) = decodeUtf8From 0 rest := by
  induction first with
  | nil => rfl
  | cons b first ih => exact ih

theorem decodeUtf8_char (c : Char) (rest : List UInt8) :
    decodeUtf8 (String.utf8EncodeChar c ++ rest) = c :: decodeUtf8 rest := by
  have read : (String.utf8EncodeChar c ++ rest).toByteArray.utf8DecodeChar? 0 = some c := by
    rw [List.toByteArray_append]
    exact ByteArray.utf8DecodeChar?_utf8EncodeChar_append
  have size := String.length_utf8EncodeChar c
  cases encoded : String.utf8EncodeChar c with
  | nil => exact absurd encoded String.utf8EncodeChar_ne_nil
  | cons first more =>
    rw [encoded, List.cons_append] at read
    rw [encoded, List.length_cons] at size
    have left : c.utf8Size - 1 = more.length := by omega
    rw [List.cons_append, decodeUtf8, decodeUtf8From, read]
    simp only [left]
    rw [decodeUtf8From_skip, decodeUtf8]

theorem decodeUtf8_encodeUtf8 (s : List Char) : decodeUtf8 (encodeUtf8 s) = s := by
  induction s with
  | nil => rfl
  | cons c s ih =>
    rw [encodeUtf8, List.flatMap_cons, decodeUtf8_char]
    rw [encodeUtf8] at ih
    rw [ih]

/-- Only a character itself has its code unit, surrogates apart. -/
theorem toNat_of_mem_units {c : Char} {u : UInt16} (member : u ∈ units c) (plain : u.toNat < 0xD800) :
    c.toNat = u.toNat := by
  have bound : c.toNat < 0x110000 := by
    have valid := c.valid
    simp only [UInt32.isValidChar, Nat.isValidChar] at valid
    show c.val.toNat < 0x110000
    omega
  unfold units at member
  by_cases small : c.toNat < 0x10000
  · rw [if_pos small, List.mem_singleton] at member
    rw [member, UInt16.toNat_ofNat']
    omega
  · rw [if_neg small] at member
    simp only [List.mem_cons, List.not_mem_nil, or_false] at member
    rcases member with rfl | rfl
    · rw [UInt16.toNat_ofNat'] at plain
      omega
    · rw [UInt16.toNat_ofNat'] at plain
      omega

theorem not_mem_utf16 {s : List Char} {c : Char} (absent : c ∉ s) (plain : c.toNat < 0xD800) :
    UInt16.ofNat c.toNat ∉ utf16 s := by
  intro member
  obtain ⟨d, inside, unit⟩ := List.mem_flatMap.mp member
  have same : (UInt16.ofNat c.toNat).toNat = c.toNat := by
    rw [UInt16.toNat_ofNat']
    omega
  have code := toNat_of_mem_units unit (by omega)
  have equal : d = c := by
    rw [← Char.ofNat_toNat d, ← Char.ofNat_toNat c, code, same]
  exact absent (equal ▸ inside)

/-- Text without a line break is one line. -/
theorem readLines_of_plain {s : Utf16} (plain : ∀ c ∈ s, isBreak c = false) (nonempty : s ≠ []) :
    readLines s = [s] := by
  have whole : s.takeWhile (!isBreak ·) = s := by
    rw [List.takeWhile_eq_self_iff]
    simpa using plain
  have nothing : s.dropWhile (!isBreak ·) = [] := by
    rw [List.dropWhile_eq_nil_iff]
    simpa using plain
  have read : readLine s = some (s, []) := by
    rw [readLine, if_neg nonempty, nothing, whole]
  have ended : readLines [] = [] := by
    rw [readLines]
    rfl
  rw [readLines]
  split
  · simp_all
  · simp_all

end SteamworksService.StreamReader
