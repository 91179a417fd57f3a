import SteamworksService.NumberText
import SteamworksService.Responses

/-!
# Accepted responses

The responses that `DecodeResponse` returns match data for, as a grammar: which
texts they are, and what is returned for each of them.
-/
namespace SteamworksService.AcceptedResponses
open DotNet Effects DecodeResponse Responses NumberText

/-- `--demo`, any character, a link, a separator, a number and what stands behind
    another separator; the number is the seconds since 1970. -/
inductive Accepted : Utf16 → SteamworksData → Prop
  | mk {c : UInt16} {downloadUrl time rest : Utf16} {timestamp : ℤ} {matchDate : DateTime}
      (noBar : 0x7C ∉ downloadUrl) (number : Numeral time timestamp) (ends : rest = [] ∨ rest.head? = some 0x7C)
      (date : (matchDate.ticks : ℤ) = origin.ticks + timestamp * 10000000) :
      Accepted (text "--demo" ++ c :: (downloadUrl ++ 0x7C :: (time ++ rest))) ⟨downloadUrl, matchDate⟩

theorem bar_not_mem_numeral {time : Utf16} {n : ℤ} (number : Numeral time n) : (0x7C : UInt16) ∉ time := by
  obtain ⟨before, signed, ⟨_, decimal, behind, ends⟩⟩ := number
  simp only [List.mem_append, not_or]
  refine ⟨?_, ?_, ?_, ?_, ?_⟩
  · intro member
    exact absurd (before _ member) (by decide)
  · cases signed <;> decide
  · intro member
    exact absurd (decimal _ member) (by decide)
  · intro member
    exact absurd (behind _ member) (by decide)
  · intro member
    exact absurd (ends _ member) (by decide)

/-- What `Split` puts first, and what is left to split. -/
theorem split_cons_iff {separator : UInt16} {s piece : Utf16} {pieces : List Utf16} :
    split separator s = piece :: pieces ↔
      separator ∉ piece ∧ (s = piece ∧ pieces = [] ∨ ∃ rest, s = piece ++ separator :: rest ∧ split separator rest = pieces) := by
  constructor
  · intro sections
    have absent : separator ∉ s.takeWhile (· ≠ separator) := by
      intro member
      simpa using List.mem_takeWhile_imp member
    have cut : s = s.takeWhile (· ≠ separator) ++ s.dropWhile (· ≠ separator) := List.takeWhile_append_dropWhile.symm
    cases left : s.dropWhile (· ≠ separator) with
    | nil =>
      rw [left, List.append_nil] at cut
      rw [cut, split_last absent] at sections
      cases sections
      exact ⟨absent, .inl ⟨cut, rfl⟩⟩
    | cons c rest =>
      have same : c = separator := by
        have head := List.head?_dropWhile_not (· ≠ separator) s
        rw [left] at head
        simpa using head
      subst same
      rw [left] at cut
      rw [cut, split_piece absent] at sections
      cases sections
      exact ⟨absent, .inr ⟨rest, cut, rfl⟩⟩
  · rintro ⟨absent, ⟨rfl, rfl⟩ | ⟨rest, rfl, rfl⟩⟩
    · exact split_last absent
    · exact split_piece absent rest

/-- The first two sections. -/
theorem split_two_iff {separator : UInt16} {s first second : Utf16} :
    (∃ more, split separator s = first :: second :: more) ↔ separator ∉ first ∧ separator ∉ second ∧
      ∃ rest, s = first ++ separator :: (second ++ rest) ∧ (rest = [] ∨ rest.head? = some separator) := by
  constructor
  · rintro ⟨more, sections⟩
    obtain ⟨noFirst, ⟨_, none⟩ | ⟨behind, rfl, inner⟩⟩ := split_cons_iff.mp sections
    · cases none
    · obtain ⟨noSecond, ⟨rfl, _⟩ | ⟨rest, rfl, _⟩⟩ := split_cons_iff.mp inner
      · exact ⟨noFirst, noSecond, [], by simp, .inl rfl⟩
      · exact ⟨noFirst, noSecond, separator :: rest, rfl, .inr rfl⟩
  · rintro ⟨noFirst, noSecond, rest, rfl, rfl | next⟩
    · rw [List.append_nil, split_piece noFirst, split_last noSecond]
      exact ⟨[], rfl⟩
    · obtain ⟨rest, rfl⟩ := List.head?_eq_some_iff.mp next
      rw [split_piece noFirst, split_piece noSecond]
      exact ⟨_, rfl⟩

theorem addSeconds_eq_ok_iff {seconds : ℤ} {date : DateTime} :
    origin.addSeconds seconds = .ok date ↔ (date.ticks : ℤ) = origin.ticks + seconds * 10000000 := by
  have bound := date.inRange
  rw [DateTime.addSeconds]
  by_cases inside : 0 ≤ (origin.ticks : ℤ) + seconds * 10000000 ∧ (origin.ticks : ℤ) + seconds * 10000000 < 3155378976000000000
  · obtain ⟨ticks, small⟩ := date
    simp only [inside, and_self, dite_true, Except.ok.injEq, DateTime.mk.injEq]
    omega
  · simp only [inside, dite_false, raise, reduceCtorEq, false_iff]
    omega

theorem result_eq_ok_iff {response : Utf16} {d : SteamworksData} :
    result (some response) = .ok d ↔ response.take 6 = text "--demo" ∧ parseModel response = .ok d := by
  by_cases short : response.length < 6
  · have other : response.take 6 ≠ text "--demo" := by
      intro same
      have length := congrArg List.length same
      rw [List.length_take, show (text "--demo").length = 6 from rfl] at length
      omega
    simp [result, short, other, raise]
  · by_cases demo : response.take 6 = text "--demo"
    · rw [result, if_neg short, if_pos demo]
      cases parseModel response <;> simp [Except.mapError, demo]
    · simp [result, short, demo]

/-- `DecodeResponse` returns match data for the responses of this form and for no
    others, whatever the logger does. -/
theorem decodeResponse_accepts_iff (logger : Logger) (before : List Event) (response : Utf16) (d : SteamworksData) :
    outcome (decodeResponse logger (some response)) before = .ok d ↔ Accepted response d := by
  rw [decodeResponse_ok_iff, result_eq_ok_iff, parseModel_eq_ok_iff]
  constructor
  · rintro ⟨demo, time, more, timestamp, sections, number, date⟩
    obtain ⟨noBar, _, rest, behind, ends⟩ := split_two_iff.mp ⟨more, sections⟩
    have long : 6 < response.length := by
      have length := congrArg List.length behind
      simp only [List.length_drop, List.length_append, List.length_cons] at length
      omega
    have whole : response = text "--demo" ++ response[6] :: (d.downloadUrl ++ 0x7C :: (time ++ rest)) := by
      rw [← demo, ← behind, ← List.drop_eq_getElem_cons long, List.take_append_drop]
    rw [whole]
    exact .mk noBar ((longParse_ok_iff time timestamp).mp number).1 ends (addSeconds_eq_ok_iff.mp date)
  · rintro ⟨noBar, number, ends, date⟩
    rename_i c downloadUrl time rest timestamp matchDate
    have six : (text "--demo").length = 6 := rfl
    have bound := matchDate.inRange
    simp only [origin] at date
    refine ⟨List.take_left' six, time, ?_⟩
    have behind : (text "--demo" ++ c :: (downloadUrl ++ 0x7C :: (time ++ rest))).drop 7 =
        downloadUrl ++ 0x7C :: (time ++ rest) := rfl
    obtain ⟨more, sections⟩ := split_two_iff.mpr ⟨noBar, bar_not_mem_numeral number, rest, behind, ends⟩
    exact ⟨more, timestamp, sections, (longParse_ok_iff time timestamp).mpr ⟨number, by omega, by omega⟩,
      addSeconds_eq_ok_iff.mpr date⟩

end SteamworksService.AcceptedResponses
