import SteamworksService.Numerals

/-!
# The .NET library

The parts of the .NET base library that the service calls: UTF-16 strings,
exceptions, `BigInteger.ToByteArray`, `BitConverter`, `long.Parse` and
`DateTime`. Strings are compared by code unit, but for `StartsWith`, and numbers
are read and written in the invariant culture.
-/
namespace SteamworksService.DotNet
open Numerals

/-! ## Strings -/

/-- A check of every symbol of a string goes through the string, not through all symbols. -/
instance (priority := 2000) decidableSymbols {α : Type} (p : α → Prop) [DecidablePred p] (s : List α) :
    Decidable (∀ c ∈ s, p c) := List.decidableBAll p s

/-- A .NET string: its UTF-16 code units, so that a surrogate counts as a character. -/
abbrev Utf16 := List UInt16

/-- The code units of one Unicode character. -/
def units (c : Char) : Utf16 :=
  if c.toNat < 0x10000 then [UInt16.ofNat c.toNat]
  else [UInt16.ofNat (0xD800 + (c.toNat - 0x10000) / 0x400), UInt16.ofNat (0xDC00 + (c.toNat - 0x10000) % 0x400)]
def utf16 (s : List Char) : Utf16 := s.flatMap units
/-- A string literal of the source. -/
def text (s : String) : Utf16 := utf16 s.toList
/-- A number between the braces of a format string. -/
def decimal (n : ℕ) : Utf16 := utf16 (Nat.toDigits 10 n)

/-! ## Exceptions -/

/-- The exception types that the service throws or tells apart; `other` stands
    for every type that it does not name. A subclass counts as its base type. -/
inductive ExceptionType
  | nullReferenceException
  | argumentException
  | argumentOutOfRangeException
  | indexOutOfRangeException
  | formatException
  | overflowException
  | ioException
  | timeoutException
  | steamNotLoggedInException
  | decodeResponseFailedException
  | decodeSharingCodeFailedException
  | other (name : ℕ)
  deriving DecidableEq, Repr

/-- An exception: its type, its message where the service wrote it, and the
    type of the exception that it wraps. -/
structure Exception where
  type : ExceptionType
  message : Utf16
  innerException : Option ExceptionType
  deriving DecidableEq, Repr

/-- An exception of the base library, whose message the service never reads. -/
def raise {α : Type} (type : ExceptionType) : Except Exception α := .error ⟨type, [], none⟩

/-! ## String operations -/

/-- `Substring(startIndex)`. -/
def substringFrom (s : Utf16) (startIndex : ℕ) : Except Exception Utf16 :=
  if startIndex ≤ s.length then .ok (s.drop startIndex) else raise .argumentOutOfRangeException
/-- `Substring(startIndex, length)`. -/
def substring (s : Utf16) (startIndex length : ℕ) : Except Exception Utf16 :=
  if startIndex + length ≤ s.length then .ok ((s.drop startIndex).take length)
  else raise .argumentOutOfRangeException
/-- `Replace` of a one-character string by the empty string. -/
def remove (s : Utf16) (c : UInt16) : Utf16 := s.filter (· ≠ c)
def contains (s value : Utf16) : Bool := s.tails.any (value.isPrefixOf ·)
/-- `Split(separator)`: the pieces between the separators, empty ones included. -/
def split (separator : UInt16) : Utf16 → List Utf16
  | [] => [[]]
  | c :: rest =>
    if c = separator then [] :: split separator rest
    else match split separator rest with
      | [] => [[c]]
      | piece :: pieces => (c :: piece) :: pieces
/-- `sections[i]` on an array. -/
def elementAt {α : Type} (array : List α) (i : ℕ) : Except Exception α :=
  match array[i]? with
  | some x => .ok x
  | none => raise .indexOutOfRangeException

/-! ## Collation -/

/-- The ASCII letters. -/
def isLetter (c : UInt16) : Bool := (0x41 ≤ c && c ≤ 0x5A) || (0x61 ≤ c && c ≤ 0x7A)
/-- The ASCII characters that are seen on paper. -/
def isGraphic (c : UInt16) : Bool := 0x21 ≤ c && c ≤ 0x7E

/-- The collation of the current culture, by which `StartsWith(string)` compares.
    It does not go by code unit: it passes over characters without weight, such as
    U+00AD, and minds combining ones. A word of ASCII letters with a dash and more
    ASCII behind it is found in every culture. -/
class Collation where
  startsWith : Utf16 → Utf16 → Bool
  word : ∀ value rest : Utf16, (∀ c ∈ value, isLetter c) → (∀ c ∈ rest, isGraphic c) →
    startsWith (value ++ 0x2D :: rest) value = true

/-- The collation by code unit, as in the invariant mode of the runtime. -/
@[reducible] def ordinal : Collation where
  startsWith s value := value.isPrefixOf s
  word _ _ _ _ := List.isPrefixOf_iff_prefix.mpr (List.prefix_append _ _)

/-! ## Numbers -/

/-- `BigInteger.ToByteArray`: the shortest little-endian two's-complement form. -/
def toByteArray (n : ℤ) : List UInt8 := leBytes (twosLength n) n
/-- The little-endian number of `width` bytes from `startIndex`, as `BitConverter` reads it. -/
def bitConvert (width : ℕ) (value : List UInt8) (startIndex : ℕ) : Except Exception ℕ :=
  if value.length ≤ startIndex then raise .argumentOutOfRangeException
  else if value.length < startIndex + width then raise .argumentException
  else .ok (leValue ((value.drop startIndex).take width))
def toUInt64 (value : List UInt8) (startIndex : ℕ) : Except Exception UInt64 :=
  UInt64.ofNat <$> bitConvert 8 value startIndex
def toUInt16 (value : List UInt8) (startIndex : ℕ) : Except Exception UInt16 :=
  UInt16.ofNat <$> bitConvert 2 value startIndex

/-- U+0020 and U+0009 to U+000D. -/
def isWhite (c : UInt16) : Bool := c = 0x20 || (0x09 ≤ c && c ≤ 0x0D)
def isDigit (c : UInt16) : Bool := 0x30 ≤ c && c ≤ 0x39
/-- The magnitude that a run of decimal digits stands for. -/
def magnitude (digits : Utf16) : ℕ := digits.foldl (fun acc c => 10 * acc + (c.toNat - 0x30)) 0
/-- `long.Parse`: optional white space, an optional sign, digits, optional white
    space, and then nothing but NUL characters. -/
def longParse (s : Utf16) : Except Exception ℤ :=
  let trimmed := s.dropWhile isWhite
  let negative := trimmed.head? = some 0x2D
  let unsigned := if negative ∨ trimmed.head? = some 0x2B then trimmed.tail else trimmed
  let digits := unsigned.takeWhile isDigit
  let trailing := ((unsigned.dropWhile isDigit).dropWhile isWhite).dropWhile (· = 0)
  if digits = [] ∨ trailing ≠ [] then raise .formatException
  else
    let n : ℤ := if negative then -magnitude digits else magnitude digits
    if -(2 ^ 63) ≤ n ∧ n < 2 ^ 63 then .ok n else raise .overflowException

/-! ## Dates -/

/-- A `DateTime` in UTC: ticks of 100 ns since 0001-01-01, up to the end of the year 9999. -/
structure DateTime where
  ticks : ℕ
  inRange : ticks < 3155378976000000000
  deriving DecidableEq, Repr
/-- `new DateTime(1970, 1, 1, 0, 0, 0, 0, DateTimeKind.Utc)`. -/
def origin : DateTime := ⟨621355968000000000, by decide⟩
/-- `AddSeconds` on whole seconds, which its floating-point argument holds
    exactly wherever the result is in range. -/
def DateTime.addSeconds (date : DateTime) (seconds : ℤ) : Except Exception DateTime :=
  let ticks := date.ticks + seconds * 10000000
  if h : 0 ≤ ticks ∧ ticks < 3155378976000000000 then .ok ⟨ticks.toNat, by omega⟩
  else raise .argumentOutOfRangeException

end SteamworksService.DotNet
