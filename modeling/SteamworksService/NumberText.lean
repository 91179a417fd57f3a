import SteamworksService.DotNet
import Mathlib.Data.List.TakeWhile

/-!
# The text of a number

Which texts `long.Parse` and `ushort.Parse` accept, as a grammar, and which number
they take them for.
-/
namespace SteamworksService.NumberText
open DotNet

/-! ## The grammar -/

/-- What a sign makes of a magnitude. -/
inductive Signed : Utf16 → ℕ → ℤ → Prop
  | none (n : ℕ) : Signed [] n n
  | plus (n : ℕ) : Signed [0x2B] n n
  | minus (n : ℕ) : Signed [0x2D] n (-n)

/-- Digits, white space, and NUL characters. -/
inductive Unsigned : Utf16 → Utf16 → Prop
  | mk {digits back nuls : Utf16} (nonempty : digits ≠ []) (decimal : ∀ c ∈ digits, isDigit c = true)
      (behind : ∀ c ∈ back, isWhite c = true) (ends : ∀ c ∈ nuls, c = 0) : Unsigned digits (digits ++ (back ++ nuls))

/-- White space, perhaps a sign, and the digits with what follows them. -/
inductive Numeral : Utf16 → ℤ → Prop
  | mk {front sign digits rest : Utf16} {n : ℤ} (before : ∀ c ∈ front, isWhite c = true)
      (signed : Signed sign (magnitude digits) n) (unsigned : Unsigned digits rest) : Numeral (front ++ (sign ++ rest)) n

/-! ## Characters -/

theorem isWhite_of_isDigit {c : UInt16} (digit : isDigit c = true) : isWhite c = false := by
  simp only [isDigit, isWhite, Bool.and_eq_true, decide_eq_true_eq, Bool.or_eq_false_iff, Bool.and_eq_false_iff,
    decide_eq_false_iff_not] at digit ⊢
  simp only [UInt16.le_iff_toNat_le, ← UInt16.toNat_inj] at digit ⊢
  simp at digit ⊢
  omega

theorem isDigit_of_isWhite {c : UInt16} (white : isWhite c = true) : isDigit c = false := by
  by_contra digit
  rw [isWhite_of_isDigit (by simpa using digit)] at white
  cases white

/-- What is cut off in front, where what follows does not begin with it. -/
theorem dropWhile_front {p : UInt16 → Bool} {front rest : Utf16} (all : ∀ c ∈ front, p c = true)
    (stops : ∀ c, rest.head? = some c → p c = false) : (front ++ rest).dropWhile p = rest := by
  rw [List.dropWhile_append_of_pos all]
  cases rest with
  | nil => rfl
  | cons c rest => rw [List.dropWhile_cons_of_neg (by simpa using stops c rfl)]

theorem takeWhile_front {p : UInt16 → Bool} {front rest : Utf16} (all : ∀ c ∈ front, p c = true)
    (stops : ∀ c, rest.head? = some c → p c = false) : (front ++ rest).takeWhile p = front := by
  rw [List.takeWhile_append_of_pos all]
  cases rest with
  | nil => simp
  | cons c rest => rw [List.takeWhile_cons_of_neg (by simpa using stops c rfl), List.append_nil]

/-! ## The digits -/

/-- What is left behind the digits, the white space and the NUL characters. -/
def trailing (s : Utf16) : Utf16 := ((s.dropWhile isDigit).dropWhile isWhite).dropWhile (· = 0)

theorem Unsigned.head {digits s : Utf16} (unsigned : Unsigned digits s) : ∃ c, s.head? = some c ∧ isDigit c = true := by
  obtain ⟨nonempty, decimal, _, _⟩ := unsigned
  obtain ⟨c, rest, rfl⟩ := List.exists_cons_of_ne_nil nonempty
  exact ⟨c, rfl, decimal c (by simp)⟩

theorem unsigned_iff {digits s : Utf16} :
    Unsigned digits s ↔ s.takeWhile isDigit = digits ∧ digits ≠ [] ∧ trailing s = [] := by
  constructor
  · rintro ⟨nonempty, decimal, behind, ends⟩
    rename_i back nuls
    have nulsEnd : ∀ c, nuls.head? = some c → isWhite c = false ∧ isDigit c = false := by
      intro c first
      rw [ends c (List.mem_of_mem_head? first)]
      decide
    have backEnd : ∀ c, (back ++ nuls).head? = some c → isDigit c = false := by
      intro c first
      cases back with
      | nil => exact (nulsEnd c first).2
      | cons b back =>
        cases first
        exact isDigit_of_isWhite (behind _ (by simp))
    refine ⟨takeWhile_front decimal backEnd, nonempty, ?_⟩
    rw [trailing, dropWhile_front decimal backEnd, dropWhile_front behind (fun c first => (nulsEnd c first).1),
      List.dropWhile_eq_nil_iff]
    intro c member
    simpa using ends c member
  · rintro ⟨rfl, nonempty, nothing⟩
    have cut : s = s.takeWhile isDigit ++ ((s.dropWhile isDigit).takeWhile isWhite ++
        (s.dropWhile isDigit).dropWhile isWhite) := by
      rw [List.takeWhile_append_dropWhile, List.takeWhile_append_dropWhile]
    rw [trailing, List.dropWhile_eq_nil_iff] at nothing
    have parts := Unsigned.mk nonempty (fun c member => List.mem_takeWhile_imp member)
      (fun c member => List.mem_takeWhile_imp (l := s.dropWhile isDigit) member)
      (fun c member => by simpa using nothing c member)
    rwa [← cut] at parts

/-! ## The parsers -/

/-- A number that is in the range of `long`. -/
def inRange (n : ℤ) : Except Exception ℤ := if -(2 ^ 63) ≤ n ∧ n < 2 ^ 63 then .ok n else raise .overflowException

theorem longParse_numeral {s : Utf16} {n : ℤ} (numeral : Numeral s n) : longParse s = inRange n := by
  obtain ⟨before, signed, unsigned⟩ := numeral
  rename_i front sign digits rest
  obtain ⟨c, first, digit⟩ := unsigned.head
  obtain ⟨taken, nonempty, nothing⟩ := unsigned_iff.mp unsigned
  have passed : ¬ (digits = [] ∨ trailing rest ≠ []) := by simp [nonempty, nothing]
  have plain : c ≠ 0x2D ∧ c ≠ 0x2B := by
    constructor <;> rintro rfl <;> revert digit <;> decide
  have start : ∀ d, (sign ++ rest).head? = some d → isWhite d = false := by
    intro d head
    cases signed with
    | none =>
      have same : some c = some d := first.symm.trans head
      cases same
      exact isWhite_of_isDigit digit
    | plus | minus =>
      cases head
      decide
  have trimmed := dropWhile_front before start
  cases signed with
  | none =>
    simp only [longParse, trimmed]
    simp only [List.nil_append, first, Option.some.injEq, plain.1, plain.2, or_self, if_false, taken]
    exact if_neg passed
  | plus =>
    simp only [longParse, trimmed]
    simp only [List.singleton_append, List.head?_cons, List.tail_cons, or_true, if_true, taken]
    exact if_neg passed
  | minus =>
    simp only [longParse, trimmed]
    simp only [List.singleton_append, List.head?_cons, List.tail_cons, true_or, if_true, taken]
    exact if_neg passed

/-- A text that gets past the format is a numeral. -/
theorem numeral_of_format {s : Utf16} (formatted : longParse s ≠ raise .formatException) : ∃ n, Numeral s n := by
  have cut : s = s.takeWhile isWhite ++ s.dropWhile isWhite := List.takeWhile_append_dropWhile.symm
  have before : ∀ c ∈ s.takeWhile isWhite, isWhite c = true := fun c member => List.mem_takeWhile_imp member
  have numeral : ∀ {sign rest : Utf16} {n : ℤ}, s.dropWhile isWhite = sign ++ rest →
      Signed sign (magnitude (rest.takeWhile isDigit)) n → ¬ (rest.takeWhile isDigit = [] ∨ trailing rest ≠ []) →
      ∃ n, Numeral s n := by
    intro sign rest n split signed passed
    rw [not_or, not_not] at passed
    have parts := Numeral.mk before signed (unsigned_iff.mpr ⟨rfl, passed.1, passed.2⟩)
    rw [← split, ← cut] at parts
    exact ⟨n, parts⟩
  have other : ∀ {p : Prop} [Decidable p] {e : Except Exception ℤ},
      (if p then raise .formatException else e) ≠ raise .formatException → ¬ p := by
    intro p _ e different holds
    exact different (if_pos holds)
  simp only [longParse] at formatted
  have passed := other formatted
  cases trimmed : s.dropWhile isWhite with
  | nil =>
    simp only [trimmed] at passed
    have split : s.dropWhile isWhite = [] ++ [] := trimmed
    exact numeral split (.none _) passed
  | cons c rest =>
    simp only [trimmed, List.head?_cons, Option.some.injEq] at passed
    by_cases minus : c = 0x2D
    · subst minus
      rw [if_pos (.inl rfl)] at passed
      have split : s.dropWhile isWhite = [0x2D] ++ rest := trimmed
      exact numeral split (.minus _) passed
    · by_cases plus : c = 0x2B
      · subst plus
        rw [if_pos (.inr rfl)] at passed
        have split : s.dropWhile isWhite = [0x2B] ++ rest := trimmed
        exact numeral split (.plus _) passed
      · rw [if_neg (by simp [minus, plus])] at passed
        have split : s.dropWhile isWhite = [] ++ (c :: rest) := trimmed
        exact numeral split (.none _) passed

theorem longParse_ok_iff (s : Utf16) (n : ℤ) : longParse s = .ok n ↔ Numeral s n ∧ -(2 ^ 63) ≤ n ∧ n < 2 ^ 63 := by
  constructor
  · intro parsed
    obtain ⟨m, numeral⟩ := numeral_of_format (s := s) (by rw [parsed]; simp [raise])
    rw [longParse_numeral numeral] at parsed
    by_cases range : -(2 ^ 63) ≤ m ∧ m < 2 ^ 63
    · rw [inRange, if_pos range] at parsed
      cases parsed
      exact ⟨numeral, range⟩
    · rw [inRange, if_neg range] at parsed
      cases parsed
  · rintro ⟨numeral, range⟩
    rw [longParse_numeral numeral, inRange, if_pos range]

/-- `ushort.Parse`: what `long.Parse` does, with the range of `ushort`. -/
def ushortParse (s : Utf16) : Except Exception UInt16 := do
  let n ← longParse s
  if 0 ≤ n ∧ n < 2 ^ 16 then .ok (UInt16.ofNat n.toNat) else raise .overflowException

theorem ushortParse_ok_iff (s : Utf16) (n : UInt16) : ushortParse s = .ok n ↔ Numeral s n.toNat := by
  have small := n.toNat_lt
  have parses : ∀ {m : ℤ}, longParse s = .ok m → ushortParse s =
      if 0 ≤ m ∧ m < 2 ^ 16 then .ok (UInt16.ofNat m.toNat) else raise .overflowException := by
    intro m number
    rw [ushortParse, number]
    rfl
  constructor
  · intro parsed
    cases number : longParse s with
    | error e =>
      rw [ushortParse, number] at parsed
      cases parsed
    | ok m =>
      rw [parses number] at parsed
      by_cases range : 0 ≤ m ∧ m < 2 ^ 16
      · rw [if_pos range] at parsed
        cases parsed
        have same : ((UInt16.ofNat m.toNat).toNat : ℤ) = m := by
          rw [UInt16.toNat_ofNat']
          omega
        rw [same]
        exact ((longParse_ok_iff s m).mp number).1
      · rw [if_neg range] at parsed
        cases parsed
  · intro numeral
    have number := (longParse_ok_iff s n.toNat).mpr ⟨numeral, by omega, by omega⟩
    rw [parses number, if_pos (by omega), Int.toNat_natCast, UInt16.ofNat_toNat]

theorem ushortParse_error {s : Utf16} {e : Exception} (failed : ushortParse s = .error e) :
    e.type = .formatException ∨ e.type = .overflowException := by
  by_cases format : longParse s = raise .formatException
  · rw [ushortParse, format] at failed
    cases failed
    exact .inl rfl
  · obtain ⟨n, numeral⟩ := numeral_of_format format
    rw [ushortParse, longParse_numeral numeral, inRange] at failed
    right
    by_cases range : -(2 ^ 63) ≤ n ∧ n < 2 ^ 63
    · rw [if_pos range] at failed
      by_cases small : 0 ≤ n ∧ n < 2 ^ 16
      · simp only [bind, Except.bind, if_pos small] at failed
        cases failed
      · simp only [bind, Except.bind, if_neg small] at failed
        cases failed
        rfl
    · rw [if_neg range] at failed
      cases failed
      rfl

end SteamworksService.NumberText
