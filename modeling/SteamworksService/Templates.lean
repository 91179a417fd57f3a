import SteamworksService.DotNet

/-!
# Message templates

What a logging call makes of a message that has arguments. The logging library
numbers the placeholders of the template, and `String.Format` fills in the
arguments by these numbers. Neither of them looks at the whole message at once,
so braces that do not pair up are told apart by what stands around them. The
result says that plain text around a piece has no say in whether it is filled.
-/
namespace SteamworksService.Templates
open DotNet

/-- U+007B. -/
def opening : UInt16 := 0x7B
/-- U+007D. -/
def closing : UInt16 := 0x7D

/-! ## Numbering the placeholders -/

/-- `FindBraceIndex`: the last of an odd run of opening braces, or the first of an
    odd run of closing ones; a run at the end of the text is taken in any case. -/
def findBraceIndex (brace : UInt16) : Option ℕ → ℕ → ℕ → Utf16 → Option ℕ
  | braceIndex, _, _, [] => braceIndex
  | braceIndex, braceOccurrenceCount, scanIndex, c :: rest =>
    if 0 < braceOccurrenceCount ∧ c ≠ brace then
      if braceOccurrenceCount % 2 = 0 then findBraceIndex brace none 0 (scanIndex + 1) rest else braceIndex
    else if c = brace then
      findBraceIndex brace (if brace = closing ∧ 0 < braceOccurrenceCount then braceIndex else some scanIndex)
        (braceOccurrenceCount + 1) (scanIndex + 1) rest
    else findBraceIndex brace braceIndex braceOccurrenceCount (scanIndex + 1) rest

/-- The symbols that end a placeholder's name. -/
def isDelimiter (c : UInt16) : Bool := c = 0x2C || c = 0x3A

/-- `LogValuesFormatter`: each placeholder's name gives way to its number. What has
    no closing brace any more is left as it is. -/
def number : ℕ → ℕ → Utf16 → Utf16
  | 0, _, format => format
  | fuel + 1, count, format =>
    match findBraceIndex opening none 0 0 format with
    | none => format
    | some openBraceIndex =>
      let behind := format.drop (openBraceIndex + 1)
      match findBraceIndex closing none 0 0 behind with
      | none => format
      | some closeBraceIndex =>
        format.take (openBraceIndex + 1) ++ decimal count ++
          ((behind.take closeBraceIndex).dropWhile (fun c => !isDelimiter c) ++ [closing]) ++
          number fuel (count + 1) (behind.drop (closeBraceIndex + 1))

/-! ## Filling them in -/

/-- How far `String.Format` has come: in text, behind a brace that may yet be
    doubled, or in an item: its index, alignment and format string. -/
inductive Place
  | text
  | opened
  | closed
  | index (n : ℕ)
  | indexed
  | comma
  | minus
  | width (n : ℕ)
  | aligned
  | itemFormat
  | itemOpened
  | itemClosed
  deriving DecidableEq, Repr

/-- Where index and width stop to take digits. -/
def limit : ℕ := 1000000

section
variable (doubled : Bool) (args : ℕ)

/-- Text, up to a brace. -/
def scanText (c : UInt16) : Place := if c = opening then .opened else if c = closing then .closed else .text
/-- What may stand behind an index or an alignment. -/
def scanBehind (c : UInt16) : Option Place :=
  if c = 0x3A then some .itemFormat else if c = closing then some .text else none
/-- One character; none is an error. Whether braces may stand doubled in a format
    string is a matter of the runtime's version. -/
def scan : Place → UInt16 → Option Place
  | .text, c => some (scanText c)
  | .opened, c => if c = opening then some .text else if isDigit c then some (.index (c.toNat - 0x30)) else none
  | .closed, c => if c = closing then some .text else none
  | .index n, c =>
    if isDigit c then if n < limit then some (.index (10 * n + (c.toNat - 0x30))) else none
    else if args ≤ n then none
    else if c = 0x20 then some .indexed
    else if c = 0x2C then some .comma
    else scanBehind c
  | .indexed, c => if c = 0x20 then some .indexed else if c = 0x2C then some .comma else scanBehind c
  | .comma, c =>
    if c = 0x20 then some .comma
    else if c = 0x2D then some .minus
    else if isDigit c then some (.width (c.toNat - 0x30)) else none
  | .minus, c => if isDigit c then some (.width (c.toNat - 0x30)) else none
  | .width n, c =>
    if isDigit c then if n < limit then some (.width (10 * n + (c.toNat - 0x30))) else none
    else if c = 0x20 then some .aligned
    else scanBehind c
  | .aligned, c => if c = 0x20 then some .aligned else scanBehind c
  | .itemFormat, c =>
    if c = opening then if doubled then some .itemOpened else none
    else if c = closing then if doubled then some .itemClosed else some .text
    else some .itemFormat
  | .itemOpened, c => if c = opening then some .itemFormat else none
  | .itemClosed, c => if c = closing then some .itemFormat else some (scanText c)

def scanAll : Option Place → Utf16 → Option Place
  | place, [] => place
  | place, c :: rest => scanAll (place.bind (fun p => scan doubled args p c)) rest

/-- The text may end in its own, or behind a closed item. -/
def ended (place : Option Place) : Bool := place = some .text || place = some .itemClosed

/-- The message can be filled with so many arguments. -/
def Fills (message : Utf16) : Prop := ended (scanAll doubled args (some .text) (number message.length 0 message)) = true
instance (message : Utf16) : Decidable (Fills doubled args message) := inferInstanceAs (Decidable (_ = true))

end

/-- Text without braces. -/
def Plain (s : Utf16) : Prop := ∀ c ∈ s, c ≠ opening ∧ c ≠ closing
instance (s : Utf16) : Decidable (Plain s) := List.decidableBAll (fun c => c ≠ opening ∧ c ≠ closing) s

/-! ## Plain text in front -/

section
variable {s before : Utf16} {brace : UInt16}

theorem findBraceIndex_shift (braceIndex : Option ℕ) (count i k : ℕ) :
    findBraceIndex brace (braceIndex.map (· + k)) count (i + k) s = (findBraceIndex brace braceIndex count i s).map (· + k) := by
  fun_induction findBraceIndex brace braceIndex count i s with
  | case1 => rfl
  | case2 braceIndex count i c rest other even ih =>
    rw [findBraceIndex, if_pos other, if_pos even, Nat.add_right_comm]
    exact ih
  | case3 braceIndex count i c rest other odd => rw [findBraceIndex, if_pos other, if_neg odd]
  | case4 braceIndex count i rest other ih =>
    rw [findBraceIndex, if_neg other, if_pos rfl, Nat.add_right_comm, ← ih]
    split_ifs <;> rfl
  | case5 braceIndex count i c rest other notBrace ih =>
    rw [findBraceIndex, if_neg other, if_neg notBrace, Nat.add_right_comm]
    exact ih

theorem findBraceIndex_plain (plain : ∀ c ∈ before, c ≠ brace) (i : ℕ) :
    findBraceIndex brace none 0 i (before ++ s) = findBraceIndex brace none 0 (i + before.length) s := by
  induction before generalizing i with
  | nil => rfl
  | cons c before ih =>
    rw [List.cons_append, findBraceIndex, if_neg (by simp), if_neg (plain c (by simp)),
      ih (fun d member => plain d (by simp [member])), List.length_cons, Nat.add_right_comm, Nat.add_assoc]

theorem number_plain (plain : Plain before) (fuel count : ℕ) : number fuel count (before ++ s) = before ++ number fuel count s := by
  cases fuel with
  | zero => rfl
  | succ fuel =>
    have found := findBraceIndex_plain (s := s) (fun c member => (plain c member).1) 0
    have shifted : findBraceIndex opening none 0 (0 + before.length) s =
        (findBraceIndex opening none 0 0 s).map (· + before.length) := findBraceIndex_shift none 0 0 before.length
    rw [shifted] at found
    rw [number, number, found]
    cases findBraceIndex opening none 0 0 s with
    | none => rfl
    | some openBraceIndex =>
      have behind : (before ++ s).drop (openBraceIndex + before.length + 1) = s.drop (openBraceIndex + 1) := by
        rw [show openBraceIndex + before.length + 1 = before.length + (openBraceIndex + 1) by omega,
          List.drop_length_add_append]
      have front : (before ++ s).take (openBraceIndex + before.length + 1) = before ++ s.take (openBraceIndex + 1) := by
        rw [show openBraceIndex + before.length + 1 = before.length + (openBraceIndex + 1) by omega,
          List.take_length_add_append]
      simp only [Option.map_some, behind, front]
      cases findBraceIndex closing none 0 0 (s.drop (openBraceIndex + 1)) with
      | none => rfl
      | some closeBraceIndex => simp only [List.append_assoc]

end

/-! ## Plain text behind -/

section
variable {brace : UInt16}

theorem findBraceIndex_end {after : Utf16} (plain : ∀ c ∈ after, c ≠ brace) (i : ℕ) :
    findBraceIndex brace none 0 i after = none := by
  have all := findBraceIndex_plain (s := []) plain i
  rw [List.append_nil] at all
  rw [all, findBraceIndex]

/-- A run of braces that plain text ends counts by its parity alone. -/
theorem findBraceIndex_behind {after : Utf16} (plain : ∀ c ∈ after, c ≠ brace) (more : after ≠ [])
    {braceIndex : Option ℕ} {count : ℕ} (fresh : count = 0 → braceIndex = none) (i : ℕ) :
    findBraceIndex brace braceIndex count i after = if count % 2 = 0 then none else braceIndex := by
  cases after with
  | nil => exact absurd rfl more
  | cons c after =>
    by_cases running : 0 < count
    · rw [findBraceIndex, if_pos ⟨running, plain c (by simp)⟩,
        findBraceIndex_end (fun d member => plain d (by simp [member]))]
    · have zero : count = 0 := by omega
      subst zero
      rw [fresh rfl]
      exact findBraceIndex_end plain i

/-- Where the braces of a piece are found depends on no more than that plain text is behind it. -/
theorem findBraceIndex_append {after after' : Utf16} (plain : ∀ c ∈ after, c ≠ brace) (more : after ≠ [])
    (plain' : ∀ c ∈ after', c ≠ brace) (more' : after' ≠ []) (s : Utf16) {braceIndex : Option ℕ} {count : ℕ}
    (fresh : count = 0 → braceIndex = none) (i : ℕ) :
    findBraceIndex brace braceIndex count i (s ++ after) = findBraceIndex brace braceIndex count i (s ++ after') := by
  induction s generalizing braceIndex count i with
  | nil => rw [List.nil_append, List.nil_append, findBraceIndex_behind plain more fresh, findBraceIndex_behind plain' more' fresh]
  | cons c s ih =>
    rw [List.cons_append, List.cons_append, findBraceIndex, findBraceIndex]
    split_ifs
    · exact ih (fun _ => rfl) _
    · rfl
    · exact ih (by simp) _
    · exact ih (by simp) _
    · exact ih fresh _

theorem findBraceIndex_inside {after : Utf16} (plain : ∀ c ∈ after, c ≠ brace) (more : after ≠ []) (s : Utf16)
    {braceIndex : Option ℕ} {count i j : ℕ} (fresh : count = 0 → braceIndex = none)
    (early : ∀ k, braceIndex = some k → k < i) (found : findBraceIndex brace braceIndex count i (s ++ after) = some j) :
    j < i + s.length := by
  induction s generalizing braceIndex count i with
  | nil =>
    rw [List.nil_append, findBraceIndex_behind plain more fresh] at found
    split_ifs at found
    exact early j found
  | cons c s ih =>
    have later : ∀ k, braceIndex = some k → k < i + 1 := fun k here => Nat.lt_succ_of_lt (early k here)
    rw [List.length_cons]
    rw [List.cons_append, findBraceIndex] at found
    split_ifs at found
    · have inside := ih (fun _ => rfl) (by simp) found
      omega
    · have first := early j found
      omega
    · have inside := ih (by simp) later found
      omega
    · have inside := ih (by simp) (by simp) found
      omega
    · have inside := ih fresh later found
      omega

end

/-- What becomes of a piece depends on no more than that plain text is behind it. -/
theorem number_append (count : ℕ) (s : Utf16) : ∃ piece : Utf16, ∀ after, Plain after → after ≠ [] →
    ∀ fuel, (s ++ after).length ≤ fuel → number fuel count (s ++ after) = piece ++ after := by
  -- any plain text shows where the braces are found
  let sample : Utf16 := [0x20]
  have plainSample : Plain sample := by decide
  induction length : s.length using Nat.strong_induction_on generalizing count s with
  | _ n ih =>
    have opens : ∀ after, Plain after → after ≠ [] →
        findBraceIndex opening none 0 0 (s ++ after) = findBraceIndex opening none 0 0 (s ++ sample) :=
      fun after plain more => findBraceIndex_append (fun c member => (plain c member).1) more
        (fun c member => (plainSample c member).1) (by simp [sample]) s (fun _ => rfl) 0
    cases opened : findBraceIndex opening none 0 0 (s ++ sample) with
    | none =>
      refine ⟨s, fun after plain more fuel enough => ?_⟩
      cases fuel with
      | zero => rfl
      | succ fuel => rw [number, opens after plain more, opened]
    | some openBraceIndex =>
      have inside : openBraceIndex < s.length := by
        have bound := findBraceIndex_inside (fun c member => (plainSample c member).1) (by simp [sample]) s
          (fun _ => rfl) (by simp) opened
        omega
      let behind := s.drop (openBraceIndex + 1)
      have drops : ∀ after : Utf16, (s ++ after).drop (openBraceIndex + 1) = behind ++ after :=
        fun after => List.drop_append_of_le_length (by omega)
      have closes : ∀ after, Plain after → after ≠ [] →
          findBraceIndex closing none 0 0 (behind ++ after) = findBraceIndex closing none 0 0 (behind ++ sample) :=
        fun after plain more => findBraceIndex_append (fun c member => (plain c member).2) more
          (fun c member => (plainSample c member).2) (by simp [sample]) behind (fun _ => rfl) 0
      cases closed : findBraceIndex closing none 0 0 (behind ++ sample) with
      | none =>
        refine ⟨s, fun after plain more fuel enough => ?_⟩
        cases fuel with
        | zero => rfl
        | succ fuel =>
          rw [number, opens after plain more, opened]
          simp only [drops, closes after plain more, closed]
      | some closeBraceIndex =>
        have inside' : closeBraceIndex < behind.length := by
          have bound := findBraceIndex_inside (fun c member => (plainSample c member).2) (by simp [sample]) behind
            (fun _ => rfl) (by simp) closed
          omega
        have shorter : (behind.drop (closeBraceIndex + 1)).length < n := by
          simp only [behind, List.length_drop] at inside' ⊢
          omega
        obtain ⟨piece, rest⟩ := ih _ shorter (count + 1) (behind.drop (closeBraceIndex + 1)) rfl
        refine ⟨s.take (openBraceIndex + 1) ++ decimal count ++
          ((behind.take closeBraceIndex).dropWhile (fun c => !isDelimiter c) ++ [closing]) ++ piece,
          fun after plain more fuel enough => ?_⟩
        cases fuel with
        | zero =>
          rw [List.length_append] at enough
          omega
        | succ fuel =>
          have front : (s ++ after).take (openBraceIndex + 1) = s.take (openBraceIndex + 1) :=
            List.take_append_of_le_length (by omega)
          have front' : (behind ++ after).take closeBraceIndex = behind.take closeBraceIndex :=
            List.take_append_of_le_length (by omega)
          have back : (behind ++ after).drop (closeBraceIndex + 1) = behind.drop (closeBraceIndex + 1) ++ after :=
            List.drop_append_of_le_length (by omega)
          have left : (behind.drop (closeBraceIndex + 1) ++ after).length ≤ fuel := by
            rw [List.length_append] at enough ⊢
            omega
          rw [number, opens after plain more, opened]
          simp only [drops, closes after plain more, closed, front, front', back, rest after plain more fuel left,
            List.append_assoc]

section
variable {doubled : Bool} {args : ℕ}

theorem scanAll_append (place : Option Place) (s t : Utf16) :
    scanAll doubled args place (s ++ t) = scanAll doubled args (scanAll doubled args place s) t := by
  induction s generalizing place with
  | nil => rfl
  | cons c s ih => rw [List.cons_append, scanAll, scanAll, ih]

theorem scanAll_text {s : Utf16} (plain : Plain s) : scanAll doubled args (some .text) s = some .text := by
  induction s with
  | nil => rfl
  | cons c s ih =>
    obtain ⟨notOpening, notClosing⟩ := plain c (by simp)
    rw [scanAll, Option.bind_some, scan, scanText, if_neg notOpening, if_neg notClosing,
      ih (fun d member => plain d (by simp [member]))]

/-- Plain text neither ends an item nor makes a lone brace whole. -/
theorem scan_unended {c : UInt16} (plain : c ≠ opening ∧ c ≠ closing) {place : Place} (within : ended (some place) = false) :
    ended (scan doubled args place c) = false := by
  obtain ⟨notOpening, notClosing⟩ := plain
  have behind : ended (scanBehind c) = false := by
    rw [scanBehind, if_neg notClosing]
    split_ifs <;> rfl
  cases place with
  | text | itemClosed => cases within
  | closed | itemFormat | itemOpened =>
    simp only [scan, if_neg notOpening, if_neg notClosing]
    rfl
  | opened | comma | minus =>
    simp only [scan, if_neg notOpening]
    split_ifs <;> rfl
  | index n | indexed | width n | aligned =>
    simp only [scan]
    split_ifs <;> first | rfl | exact behind

theorem scanAll_unended {s : Utf16} (plain : Plain s) {place : Option Place} (within : ended place = false) :
    ended (scanAll doubled args place s) = false := by
  induction s generalizing place with
  | nil => exact within
  | cons c s ih =>
    apply ih (fun d member => plain d (by simp [member]))
    cases place with
    | none => rfl
    | some place => exact scan_unended (plain c (by simp)) within

theorem ended_behind {after : Utf16} (plain : Plain after) (more : after ≠ []) (place : Option Place) :
    ended (scanAll doubled args place after) = ended place := by
  cases within : ended place with
  | false => exact scanAll_unended plain within
  | true =>
    rw [ended, Bool.or_eq_true, decide_eq_true_eq, decide_eq_true_eq] at within
    rcases within with rfl | rfl
    · rw [scanAll_text plain]
      rfl
    · cases after with
      | nil => exact absurd rfl more
      | cons c after =>
        obtain ⟨notOpening, notClosing⟩ := plain c (by simp)
        rw [scanAll, Option.bind_some, scan, if_neg notClosing, scanText, if_neg notOpening, if_neg notClosing,
          scanAll_text (fun d member => plain d (by simp [member]))]
        rfl

/-- Plain text around a piece has no say in whether the message is filled. -/
theorem fills_around {before before' after after' : Utf16} (plainBefore : Plain before) (plainBefore' : Plain before')
    (plainAfter : Plain after) (more : after ≠ []) (plainAfter' : Plain after') (more' : after' ≠ []) (s : Utf16) :
    Fills doubled args (before ++ s ++ after) ↔ Fills doubled args (before' ++ s ++ after') := by
  obtain ⟨piece, numbered⟩ := number_append 0 s
  have only : ∀ before after, Plain before → Plain after → after ≠ [] →
      (Fills doubled args (before ++ s ++ after) ↔ ended (scanAll doubled args (some .text) piece) = true) := by
    intro before after plainBefore plainAfter more
    rw [Fills, List.append_assoc, number_plain plainBefore, numbered after plainAfter more _ (by simp),
      scanAll_append, scanAll_text plainBefore, scanAll_append, ended_behind plainAfter more]
  rw [only before after plainBefore plainAfter more, only before' after' plainBefore' plainAfter' more']

/-- A message without braces is filled with any arguments. -/
theorem fills_plain {s : Utf16} (plain : Plain s) : Fills doubled args s := by
  have whole := number_plain (s := []) plain s.length 0
  have nothing : number s.length 0 [] = [] := by cases s.length <;> rfl
  rw [nothing, List.append_nil] at whole
  rw [Fills, whole, scanAll_text plain]
  rfl

end

/-- `{a{{b}`: the name goes up to the single brace. -/
example : Fills true 1 (text "\x7ba\x7b\x7bb\x7d") := by decide +kernel
/-- A width that is no number, and two placeholders for one argument. -/
example : ¬ Fills true 1 (text "\x7ba,b\x7d") ∧ ¬ Fills true 1 (text "\x7ba\x7d \x7bb\x7d") := by decide +kernel

end SteamworksService.Templates
