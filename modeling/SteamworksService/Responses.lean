import SteamworksService.DecodeResponse
import SteamworksService.DecodeSharecode
import SteamworksService.StreamReader
import Mathlib.Data.List.Forall2

/-!
# Responses on the pipe

What the connection writes for a match and for an error, and what the service
makes of a stream of such responses.
-/
namespace SteamworksService.Responses
open DotNet Effects DecodeResponse DecodeSharecode StreamReader

/-! ## Writing -/

/-- `write(fileO, s.c_str(), s.length() + 1)`. -/
def writeString (s : List UInt8) : List UInt8 := s ++ [0]
/-- `sPipeMsg`, the text of the response for one match of a `MatchList`. -/
def sPipeMsg (link : List UInt8) (matchtime : UInt32) : List UInt8 :=
  bytes "--demo ".toList ++ link ++ bytes "|".toList ++ bytes (Nat.toDigits 10 matchtime.toNat)
/-- The response for one match. -/
def demo (link : List UInt8) (matchtime : UInt32) : List UInt8 := writeString (sPipeMsg link matchtime)
/-- The response for a `MatchList` without matches. -/
def sharecodeTooOld : List UInt8 := writeString (bytes "--demo SHARECODE_TOO_OLD".toList)
/-- The response for a request that could not be sent. -/
def unknownError : List UInt8 := writeString (bytes "--demo UNKNOWN_ERROR".toList)

inductive EGCResults
  | ok
  | noMessage
  | bufferTooSmall
  | notLoggedOn
  | invalidMessage
  deriving DecidableEq, Repr

/-- What the read loop writes once `SendMessageToGC` has returned. -/
def afterSend (result : EGCResults) : List UInt8 := if result ≠ .ok then unknownError else []

/-- A link that cannot be mistaken for the rest of a response. -/
structure Link where
  text : List Char
  plain : ∀ c ∈ text, c ∉ ['|', '\r', '\n', '\x00']

inductive Response
  | demo (link : Link) (matchtime : UInt32)
  | sharecodeTooOld
  | unknownError

/-- The bytes of a response. -/
def Response.written : Response → List UInt8
  | .demo link matchtime => Responses.demo (encodeUtf8 link.text) matchtime
  | .sharecodeTooOld => Responses.sharecodeTooOld
  | .unknownError => Responses.unknownError

/-! ## Reading -/

theorem unixTime_inRange (seconds : UInt32) : origin.ticks + seconds.toNat * 10000000 < 3155378976000000000 := by
  have bound := seconds.toNat_lt
  simp only [origin]
  omega

/-- 1970-01-01 and so many seconds. -/
def unixTime (seconds : UInt32) : DateTime := ⟨origin.ticks + seconds.toNat * 10000000, unixTime_inRange seconds⟩

/-- What a response should come to. -/
def Response.Decodes : Response → Except Exception SteamworksData → Prop
  | .demo link matchtime, r => r = .ok ⟨utf16 link.text, unixTime matchtime⟩
  | _, r => ∃ e, r = .error e

/-- What `ReadLine` and `DecodeResponse` make of the stream, line by line. -/
def results (logger : Logger) (before : List Event) (stream : List UInt8) : List (Except Exception SteamworksData) :=
  (lines stream).map (fun line => outcome (decodeResponse logger (some line)) before)

/-! ## The text of a response -/

def Response.text : Response → List Char
  | .demo link matchtime =>
    "--demo ".toList ++ link.text ++ "|".toList ++ Nat.toDigits 10 matchtime.toNat ++ ['\x00']
  | .sharecodeTooOld => "--demo SHARECODE_TOO_OLD\x00".toList
  | .unknownError => "--demo UNKNOWN_ERROR\x00".toList

theorem encodeUtf8_append (s t : List Char) : encodeUtf8 (s ++ t) = encodeUtf8 s ++ encodeUtf8 t :=
  List.flatMap_append

theorem encodeUtf8_ascii {s : List Char} (ascii : ∀ c ∈ s, c.toNat < 128) : encodeUtf8 s = bytes s := by
  induction s with
  | nil => rfl
  | cons c s ih =>
    have small : c.toNat < 128 := ascii c (by simp)
    have size : c.utf8Size = 1 := by
      rw [Char.utf8Size_eq_one_iff, UInt32.le_iff_toNat_le]
      show c.toNat ≤ 127
      omega
    have rest := ih (fun d member => ascii d (by simp [member]))
    rw [encodeUtf8, List.flatMap_cons, String.utf8EncodeChar_eq_singleton size]
    exact congrArg (_ :: ·) rest

theorem digits_plain {n : ℕ} : ∀ c ∈ Nat.toDigits 10 n, 48 ≤ c.toNat ∧ c.toNat ≤ 57 := by
  intro c member
  have digit := Nat.isDigit_of_mem_toDigits (by norm_num) (by norm_num) member
  simpa [Char.isDigit, UInt32.le_iff_toNat_le] using digit

theorem digits_ascii {n : ℕ} : ∀ c ∈ Nat.toDigits 10 n, c.toNat < 128 := by
  intro c member
  have range := digits_plain c member
  omega

theorem sPipeMsg_eq (link : List Char) (matchtime : UInt32) : sPipeMsg (encodeUtf8 link) matchtime =
    encodeUtf8 ("--demo ".toList ++ link ++ "|".toList ++ Nat.toDigits 10 matchtime.toNat) := by
  simp only [encodeUtf8_append, encodeUtf8_ascii digits_ascii]
  rfl

theorem written_eq (r : Response) : r.written = encodeUtf8 r.text := by
  cases r with
  | demo link matchtime =>
    unfold Response.written Response.text
    dsimp only
    rw [Responses.demo, writeString, sPipeMsg_eq, encodeUtf8_append _ ['\x00']]
    rfl
  | sharecodeTooOld => rfl
  | unknownError => rfl

/-- No response contains a line break. -/
theorem text_plain (r : Response) : ∀ c ∈ r.text, c ≠ '\r' ∧ c ≠ '\n' := by
  cases r with
  | demo link matchtime =>
    have start : ∀ c ∈ "--demo ".toList, c ≠ '\r' ∧ c ≠ '\n' := by decide
    have digits : ∀ c ∈ Nat.toDigits 10 matchtime.toNat, c ≠ '\r' ∧ c ≠ '\n' := by
      intro c member
      have range := digits_plain c member
      constructor
      · rintro rfl
        revert range
        decide
      · rintro rfl
        revert range
        decide
    intro c member
    unfold Response.text at member
    rcases List.mem_append.mp member with inside | inside
    · rcases List.mem_append.mp inside with inside | inside
      · rcases List.mem_append.mp inside with inside | inside
        · rcases List.mem_append.mp inside with inside | inside
          · exact start c inside
          · have allowed := link.plain c inside
            constructor
            · rintro rfl
              simp at allowed
            · rintro rfl
              simp at allowed
        · cases List.mem_singleton.mp inside
          decide
      · exact digits c inside
    · cases List.mem_singleton.mp inside
      decide
  | sharecodeTooOld => decide
  | unknownError => decide

/-! ## Parsing the text -/

theorem utf16_append (s t : List Char) : utf16 (s ++ t) = utf16 s ++ utf16 t := List.flatMap_append

theorem utf16_ascii {s : List Char} (ascii : ∀ c ∈ s, c.toNat < 128) :
    utf16 s = s.map (fun c => UInt16.ofNat c.toNat) := by
  induction s with
  | nil => rfl
  | cons c s ih =>
    have small : c.toNat < 0x10000 := by
      have := ascii c (by simp)
      omega
    have rest := ih (fun d member => ascii d (by simp [member]))
    rw [utf16, List.flatMap_cons, units, if_pos small]
    exact congrArg (_ :: ·) rest

theorem split_last {separator : UInt16} {s : Utf16} (absent : separator ∉ s) : split separator s = [s] := by
  induction s with
  | nil => rfl
  | cons c s ih =>
    have other : c ≠ separator := fun same => absent (by simp [same])
    have rest : separator ∉ s := fun member => absent (by simp [member])
    simp [split, other, ih rest]

theorem split_piece {separator : UInt16} {s : Utf16} (absent : separator ∉ s) (rest : Utf16) :
    split separator (s ++ separator :: rest) = s :: split separator rest := by
  induction s with
  | nil => simp [split]
  | cons c s ih =>
    have other : c ≠ separator := fun same => absent (by simp [same])
    have inner : separator ∉ s := fun member => absent (by simp [member])
    simp [split, other, ih inner]

theorem decimal_eq (n : ℕ) : decimal n = (Nat.toDigits 10 n).map (fun c => UInt16.ofNat c.toNat) :=
  utf16_ascii digits_ascii

theorem isDigit_of_mem_decimal {n : ℕ} {u : UInt16} (member : u ∈ decimal n) :
    0x30 ≤ u.toNat ∧ u.toNat ≤ 0x39 ∧ isDigit u = true := by
  rw [decimal_eq] at member
  obtain ⟨c, inside, rfl⟩ := List.mem_map.mp member
  have range := digits_plain c inside
  have same : (UInt16.ofNat c.toNat).toNat = c.toNat := by
    rw [UInt16.toNat_ofNat']
    omega
  refine ⟨by omega, by omega, ?_⟩
  simp only [isDigit, Bool.and_eq_true, decide_eq_true_eq, UInt16.le_iff_toNat_le, same]
  exact ⟨range.1, range.2⟩

theorem bar_not_mem_decimal (n : ℕ) : (0x7C : UInt16) ∉ decimal n := by
  intro member
  have range := isDigit_of_mem_decimal member
  revert range
  decide

theorem isWhite_of_range {u : UInt16} (above : 0x30 ≤ u.toNat) : isWhite u = false := by
  have space : u ≠ 0x20 := by
    rintro rfl
    revert above
    decide
  have control : ¬ u ≤ 0x0D := by
    rw [UInt16.le_iff_toNat_le]
    show ¬ u.toNat ≤ 13
    omega
  simp [isWhite, space, control]

theorem magnitude_decimal (n : ℕ) : magnitude (decimal n) = n := by
  have step : ∀ (s : List Char) (acc : ℕ), (∀ c ∈ s, c.toNat < 128) →
      (s.map (fun c => UInt16.ofNat c.toNat)).foldl (fun acc u => 10 * acc + (u.toNat - 0x30)) acc =
        Nat.ofDigitChars 10 s acc := by
    intro s
    induction s with
    | nil => intro acc _; rfl
    | cons c s ih =>
      intro acc ascii
      have small : c.toNat < 128 := ascii c (by simp)
      have same : (UInt16.ofNat c.toNat).toNat = c.toNat := by
        rw [UInt16.toNat_ofNat']
        omega
      rw [List.map_cons, List.foldl_cons, Nat.ofDigitChars_cons, same]
      exact ih _ (fun d member => ascii d (by simp [member]))
  rw [magnitude, decimal_eq, step _ _ digits_ascii, Nat.ofDigitChars_ten_toDigits]

theorem dropWhile_nuls {p : UInt16 → Bool} (stops : p 0 = false) (nuls : ℕ) :
    (List.replicate nuls (0 : UInt16)).dropWhile p = List.replicate nuls 0 := by
  cases nuls with
  | zero => rfl
  | succ k => rw [List.replicate_succ, List.dropWhile_cons_of_neg (by simp [stops])]

theorem takeWhile_nuls {p : UInt16 → Bool} (stops : p 0 = false) (nuls : ℕ) :
    (List.replicate nuls (0 : UInt16)).takeWhile p = [] := by
  cases nuls with
  | zero => rfl
  | succ k => rw [List.replicate_succ, List.takeWhile_cons_of_neg (by simp [stops])]

/-- `long.Parse` reads back a number in decimal, with or without NUL characters after it. -/
theorem longParse_decimal {n : ℕ} (small : n < 2 ^ 63) (nuls : ℕ) :
    longParse (decimal n ++ List.replicate nuls 0) = .ok n := by
  have digits : ∀ u ∈ decimal n, isDigit u = true := fun u member => (isDigit_of_mem_decimal member).2.2
  have nonempty : decimal n ≠ [] := by
    rw [decimal_eq, ne_eq, List.map_eq_nil_iff]
    simp
  have start : ∀ u, (decimal n ++ List.replicate nuls 0).head? = some u → 0x30 ≤ u.toNat ∧ u.toNat ≤ 0x39 := by
    intro u first
    rw [List.head?_append_of_ne_nil _ nonempty] at first
    have range := isDigit_of_mem_decimal (List.mem_of_mem_head? first)
    exact ⟨range.1, range.2.1⟩
  have taken : (decimal n ++ List.replicate nuls 0).takeWhile isDigit = decimal n := by
    rw [List.takeWhile_append_of_pos digits, takeWhile_nuls rfl, List.append_nil]
  have dropped : (decimal n ++ List.replicate nuls 0).dropWhile isDigit = List.replicate nuls 0 := by
    rw [List.dropWhile_append_of_pos digits, dropWhile_nuls rfl]
  have trailing : ((List.replicate nuls (0 : UInt16)).dropWhile isWhite).dropWhile (· = 0) = [] := by
    rw [dropWhile_nuls rfl, List.dropWhile_eq_nil_iff]
    intro u member
    simp [List.eq_of_mem_replicate member]
  have trimmed : (decimal n ++ List.replicate nuls 0).dropWhile isWhite = decimal n ++ List.replicate nuls 0 := by
    rw [List.dropWhile_eq_self_iff]
    intro inside
    have range := start _ (List.head?_eq_getElem? ▸ List.getElem?_eq_getElem inside)
    rw [Bool.not_eq_true]
    exact isWhite_of_range range.1
  have unsigned : (decimal n ++ List.replicate nuls 0).head? ≠ some 0x2D ∧
      (decimal n ++ List.replicate nuls 0).head? ≠ some 0x2B := by
    constructor
    · intro sign
      have range := start _ sign
      revert range
      decide
    · intro sign
      have range := start _ sign
      revert range
      decide
  have inRange : -(2 ^ 63 : ℤ) ≤ n ∧ (n : ℤ) < 2 ^ 63 := by
    have cast : (n : ℤ) < ((2 ^ 63 : ℕ) : ℤ) := by exact_mod_cast small
    norm_num at cast ⊢
    omega
  unfold longParse
  simp only [trimmed, unsigned, taken, dropped, trailing, nonempty, magnitude_decimal, or_self, if_false,
    ne_eq, not_true, inRange, and_self, if_true]

theorem addSeconds_origin (seconds : UInt32) : origin.addSeconds seconds.toNat = .ok (unixTime seconds) := by
  have bound := seconds.toNat_lt
  have inside : 0 ≤ (origin.ticks : ℤ) + (seconds.toNat : ℤ) * 10000000 ∧
      (origin.ticks : ℤ) + (seconds.toNat : ℤ) * 10000000 < 3155378976000000000 := by
    simp only [origin]
    omega
  have ticks : ((origin.ticks : ℤ) + (seconds.toNat : ℤ) * 10000000).toNat =
      origin.ticks + seconds.toNat * 10000000 := by
    omega
  rw [DateTime.addSeconds, dif_pos inside, unixTime]
  simp only [ticks]

/-- The text of a match response, with the NUL characters that have come with it. -/
def matchText (link : Utf16) (matchtime : UInt32) (nuls : ℕ) : Utf16 :=
  DotNet.text "--demo" ++ 0x20 :: (link ++ 0x7C :: (decimal matchtime.toNat ++ List.replicate nuls 0))

section
variable (link : Utf16) (matchtime : UInt32) (nuls : ℕ)

theorem matchText_drop : (matchText link matchtime nuls).drop 7 =
    link ++ 0x7C :: (decimal matchtime.toNat ++ List.replicate nuls 0) := by
  have six : (DotNet.text "--demo").length = 6 := rfl
  rw [matchText, show 7 = 6 + 1 by rfl, ← List.drop_drop, List.drop_left' six, List.drop_one, List.tail_cons]

theorem result_matchText : result (some (matchText link matchtime nuls)) =
    (parseModel (matchText link matchtime nuls)).mapError (failure (matchText link matchtime nuls)) := by
  have six : (DotNet.text "--demo").length = 6 := rfl
  have long : ¬ (matchText link matchtime nuls).length < 6 := by
    rw [matchText, List.length_append, six]
    omega
  have head : (matchText link matchtime nuls).take 6 = DotNet.text "--demo" := by
    rw [matchText, List.take_left' six]
  rw [result, if_neg long, if_pos head]

variable {link}

/-- A link without a separator comes back with its time. -/
theorem result_match (noBar : 0x7C ∉ link) :
    result (some (matchText link matchtime nuls)) = .ok ⟨link, unixTime matchtime⟩ := by
  have noBar' : (0x7C : UInt16) ∉ decimal matchtime.toNat ++ List.replicate nuls 0 := by
    intro member
    rcases List.mem_append.mp member with inside | inside
    · exact bar_not_mem_decimal _ inside
    · have nul := List.eq_of_mem_replicate inside
      revert nul
      decide
  have long : 7 ≤ (matchText link matchtime nuls).length := by
    have six : (DotNet.text "--demo").length = 6 := rfl
    rw [matchText, List.length_append, List.length_cons, six]
    omega
  have sections : split 0x7C ((matchText link matchtime nuls).drop 7) =
      [link, decimal matchtime.toNat ++ List.replicate nuls 0] := by
    rw [matchText_drop, split_piece noBar, split_last noBar']
  have small : matchtime.toNat < 2 ^ 63 := matchtime.toNat_lt.trans (by norm_num)
  rw [result_matchText, parseModel_ok long sections (longParse_decimal small nuls) (addSeconds_origin matchtime)]
  rfl

end

theorem utf16_matchText (link : List Char) (matchtime : UInt32) (nuls : ℕ) :
    utf16 ("--demo ".toList ++ link ++ "|".toList ++ Nat.toDigits 10 matchtime.toNat ++ List.replicate nuls '\x00') =
      matchText (utf16 link) matchtime nuls := by
  have start : utf16 "--demo ".toList = DotNet.text "--demo" ++ [0x20] := rfl
  have bar : utf16 "|".toList = [0x7C] := rfl
  have terminators : utf16 (List.replicate nuls '\x00') = List.replicate nuls 0 := by
    have unit : units '\x00' = [0] := rfl
    rw [utf16, List.flatMap_replicate, unit, List.flatten_replicate_singleton]
  rw [utf16_append, utf16_append, utf16_append, utf16_append, start, bar, terminators, ← decimal, matchText]
  simp only [List.append_assoc, List.cons_append, List.nil_append]

theorem text_demo (link : Link) (matchtime : UInt32) :
    utf16 (Response.text (.demo link matchtime)) = matchText (utf16 link.text) matchtime 1 :=
  utf16_matchText link.text matchtime 1

theorem result_demo (link : Link) (matchtime : UInt32) :
    result (some (utf16 (Response.text (.demo link matchtime)))) = .ok ⟨utf16 link.text, unixTime matchtime⟩ := by
  have noBar : (0x7C : UInt16) ∉ utf16 link.text :=
    not_mem_utf16 (c := '|') (fun member => link.plain _ member (by simp)) (by decide)
  rw [text_demo, result_match matchtime 1 noBar]

theorem result_sharecodeTooOld : result (some (utf16 Response.sharecodeTooOld.text)) =
    .error ⟨.decodeResponseFailedException, decodingMessage (utf16 Response.sharecodeTooOld.text),
      some .indexOutOfRangeException⟩ := rfl

theorem result_unknownError : result (some (utf16 Response.unknownError.text)) =
    .error ⟨.decodeResponseFailedException, decodingMessage (utf16 Response.unknownError.text),
      some .indexOutOfRangeException⟩ := rfl

/-- One response by itself decodes as it should, whatever the logger does. -/
theorem decodes_text (logger : Logger) (before : List Event) (r : Response) :
    r.Decodes (outcome (decodeResponse logger (some (utf16 r.text))) before) := by
  have failing : ∀ e, result (some (utf16 r.text)) = .error e →
      ∃ thrown, outcome (decodeResponse logger (some (utf16 r.text))) before = .error thrown := by
    intro e failed
    cases ended : outcome (decodeResponse logger (some (utf16 r.text))) before with
    | ok d =>
      rw [decodeResponse_ok_iff, failed] at ended
      cases ended
    | error thrown => exact ⟨thrown, rfl⟩
  cases r with
  | demo link matchtime => exact (decodeResponse_ok_iff ..).mpr (result_demo link matchtime)
  | sharecodeTooOld => exact failing _ result_sharecodeTooOld
  | unknownError => exact failing _ result_unknownError

/-! ## One response read back -/

/-- What the service reads of a response for a match when the terminator is left out. -/
def received (link : List Char) (matchtime : UInt32) : Utf16 := utf16 (decodeUtf8 (sPipeMsg (encodeUtf8 link) matchtime))

theorem received_eq (link : List Char) (matchtime : UInt32) : received link matchtime = matchText (utf16 link) matchtime 0 := by
  rw [received, sPipeMsg_eq, decodeUtf8_encodeUtf8, ← utf16_matchText, List.replicate_zero, List.append_nil]

theorem not_mem_of_split {separator : UInt16} {s piece : Utf16} (member : piece ∈ split separator s) : separator ∉ piece := by
  induction s generalizing piece with
  | nil =>
    rw [split, List.mem_singleton] at member
    simp [member]
  | cons c s ih =>
    by_cases same : c = separator
    · rw [split, if_pos same] at member
      rcases List.mem_cons.mp member with rfl | later
      · simp
      · exact ih later
    · rw [split, if_neg same] at member
      split at member
      · next none =>
        rw [List.mem_singleton.mp member]
        simpa using Ne.symm same
      · next first pieces found =>
        rcases List.mem_cons.mp member with rfl | later
        · have rest : separator ∉ first := ih (by simp [found])
          simp [Ne.symm same, rest]
        · exact ih (by simp [found, later])

/-- A response for a match is read back exactly when its link has no separator in
    it, and no link is read back with another time. -/
theorem received_decodes_iff (logger : Logger) (before : List Event) (link : List Char) (matchtime : UInt32) :
    (outcome (decodeResponse logger (some (received link matchtime))) before = .ok ⟨utf16 link, unixTime matchtime⟩ ↔
        '|' ∉ link) ∧
      ∀ d, outcome (decodeResponse logger (some (received link matchtime))) before = .ok d →
        d.downloadUrl = utf16 link → d.matchDate = unixTime matchtime := by
  have bar : (0x7C : UInt16) ∈ utf16 link ↔ '|' ∈ link := by
    constructor
    · intro member
      by_contra absent
      exact not_mem_utf16 absent (by decide) member
    · intro member
      exact List.mem_flatMap.mpr ⟨'|', member, by decide⟩
  have plain : '|' ∉ link → result (some (received link matchtime)) = .ok ⟨utf16 link, unixTime matchtime⟩ := by
    intro absent
    rw [received_eq, result_match matchtime 0 (by rwa [bar])]
  have separated : ∀ d, result (some (received link matchtime)) = .ok d → d.downloadUrl = utf16 link → '|' ∉ link := by
    intro d returned same
    rw [received_eq, result_matchText] at returned
    cases parsed : parseModel (matchText (utf16 link) matchtime 0) with
    | error e =>
      rw [parsed] at returned
      cases returned
    | ok d' =>
      rw [parsed] at returned
      cases returned
      obtain ⟨_, _, _, sections, _⟩ := parseModel_eq_ok_iff.mp parsed
      rw [← bar, ← same]
      apply not_mem_of_split (s := (matchText (utf16 link) matchtime 0).drop 7)
      simp [sections]
  simp only [decodeResponse_ok_iff]
  refine ⟨⟨fun returned => separated _ returned rfl, plain⟩, ?_⟩
  intro d returned same
  rw [plain (separated d returned same)] at returned
  cases returned
  rfl

/-! ## The stream -/

theorem stream_eq (responses : List Response) :
    responses.flatMap Response.written = encodeUtf8 (responses.flatMap Response.text) := by
  induction responses with
  | nil => rfl
  | cons r rest ih => rw [List.flatMap_cons, List.flatMap_cons, encodeUtf8_append, written_eq, ih]

theorem stream_plain (responses : List Response) :
    ∀ u ∈ utf16 (responses.flatMap Response.text), isBreak u = false := by
  have absent : ∀ c ∈ ['\n', '\r'], c ∉ responses.flatMap Response.text := by
    intro c isBreak member
    obtain ⟨r, _, inside⟩ := List.mem_flatMap.mp member
    have plain := text_plain r c inside
    simp [plain] at isBreak
  have lineFeed : (0x0A : UInt16) ∉ utf16 (responses.flatMap Response.text) :=
    not_mem_utf16 (absent '\n' (by simp)) (by decide)
  have carriageReturn : (0x0D : UInt16) ∉ utf16 (responses.flatMap Response.text) :=
    not_mem_utf16 (absent '\r' (by simp)) (by decide)
  intro u member
  have notLineFeed : u ≠ 0x0A := fun same => lineFeed (same ▸ member)
  have notCarriageReturn : u ≠ 0x0D := fun same => carriageReturn (same ▸ member)
  simp [isBreak, notLineFeed, notCarriageReturn]

/-- However many responses there are, they make one line. -/
theorem lines_stream (responses : List Response) (nonempty : responses ≠ []) :
    lines (responses.flatMap Response.written) = [utf16 (responses.flatMap Response.text)] := by
  rw [lines, stream_eq, decodeUtf8_encodeUtf8]
  apply readLines_of_plain (stream_plain responses)
  obtain ⟨r, rest, rfl⟩ := List.exists_cons_of_ne_nil nonempty
  have first : '-' ∈ (r :: rest).flatMap Response.text := by
    rw [List.flatMap_cons]
    apply List.mem_append_left
    cases r with
    | demo link matchtime =>
      unfold Response.text
      simp
    | sharecodeTooOld => decide
    | unknownError => decide
  intro empty
  have unit : (0x2D : UInt16) ∈ utf16 ((r :: rest).flatMap Response.text) :=
    List.mem_flatMap.mpr ⟨'-', first, by decide⟩
  rw [empty] at unit
  cases unit

theorem results_length (logger : Logger) (before : List Event) {responses : List Response} (nonempty : responses ≠ []) :
    (results logger before (responses.flatMap Response.written)).length = 1 := by
  rw [results, lines_stream responses nonempty]
  rfl

/-- The service gets the right results from a stream of responses exactly when
    there is at most one of them. -/
theorem results_decode_iff (logger : Logger) (before : List Event) (responses : List Response) :
    List.Forall₂ Response.Decodes responses (results logger before (responses.flatMap Response.written)) ↔
      responses.length ≤ 1 := by
  constructor
  · intro decoded
    by_cases empty : responses = []
    · simp [empty]
    · rw [decoded.length_eq, results_length logger before empty]
  · intro short
    match responses, short with
    | [], _ =>
      have nothing : results logger before ([].flatMap Response.written) = [] := by
        rw [List.flatMap_nil, results, lines, readLines]
        rfl
      rw [nothing]
      exact .nil
    | [r], _ =>
      rw [results, lines_stream [r] (by simp), List.flatMap_singleton, List.map_singleton]
      exact .cons (decodes_text logger before r) .nil

theorem two_responses_merge : ¬ ∀ (logger : Logger) (before : List Event) (responses : List Response), responses ≠ [] →
    List.Forall₂ Response.Decodes responses (results logger before (responses.flatMap Response.written)) := by
  intro all
  let link : Link := ⟨"http://replay1.valve.net/730/1.dem.bz2".toList, by decide⟩
  have decoded := all (fun _ _ => none) [] [.demo link 1568000000, .demo link 1568000001] (by simp)
  have same := decoded.length_eq
  rw [results_length _ _ (by simp)] at same
  cases same

end SteamworksService.Responses
