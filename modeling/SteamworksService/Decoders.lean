import SteamworksService.FromSharingCode
import SteamworksService.DecodeSharecode

/-!
# The two decoders on one code

Both decoders evaluate the same numeral, but the connection removes `CSGO`
wherever it stands and the service only in front. A code that has `CSGO` inside
a group loses four symbols there, which changes the number modulo 56, and no
wrap-around at `2 ^ 144` can undo that.
-/
namespace SteamworksService.Decoders
open Numerals DotNet SharingCodes FromSharingCode DecodeSharecode

/-! ## The removal, group by group -/

def csgo : List UInt8 := bytes "CSGO".toList
def dash : UInt8 := 0x2D
theorem csgo_length : csgo.length = 4 := rfl
/-- What the regex leaves of a piece of text. -/
def erased (s : List UInt8) : List UInt8 := regexReplace s

private theorem csgo_prefix_append {g rest : List UInt8} {x : UInt8} (other : x ∉ csgo) :
    csgo <+: g ++ x :: rest ↔ csgo <+: g := by
  constructor
  · intro starts
    rcases Nat.lt_or_ge g.length csgo.length with short | long
    · -- A match that reaches past the piece would contain the symbol behind it.
      have inside : x ∈ csgo := by
        obtain ⟨k, split⟩ := starts
        have position : (csgo ++ k)[g.length]? = some x := by rw [split]; simp
        rw [List.getElem?_append_left short] at position
        exact List.mem_of_getElem? position
      exact absurd inside other
    · exact List.prefix_of_prefix_length_le starts (List.prefix_append _ _) long
  · intro starts
    exact starts.trans (List.prefix_append _ _)

private theorem isPrefixOf_false {word s : List UInt8} (other : ¬ word <+: s) : word.isPrefixOf s = false := by
  rw [Bool.eq_false_iff, ne_eq, List.isPrefixOf_iff_prefix]
  exact other

private theorem eraseMatches_head {c : UInt8} {rest : List UInt8} (notDash : c ≠ dash) :
    eraseMatches [csgo, [dash]] 0 (c :: rest) =
      if csgo <+: c :: rest then eraseMatches [csgo, [dash]] 3 rest
      else c :: eraseMatches [csgo, [dash]] 0 rest := by
  have other : ¬ [dash] <+: c :: rest := by
    rw [List.cons_prefix_cons]
    exact fun both => notDash both.1.symm
  by_cases starts : csgo <+: c :: rest
  · simp only [eraseMatches, List.find?, List.isPrefixOf_iff_prefix.mpr starts, if_pos starts]
    rfl
  · simp only [eraseMatches, List.find?, isPrefixOf_false starts, isPrefixOf_false other, if_neg starts]

private theorem eraseMatches_dash (rest : List UInt8) :
    eraseMatches [csgo, [dash]] 0 (dash :: rest) = eraseMatches [csgo, [dash]] 0 rest := by
  have other : ¬ csgo <+: dash :: rest := by
    rw [show csgo = 67 :: csgo.tail by decide, List.cons_prefix_cons]
    exact fun both => absurd both.1 (by decide)
  have here : [dash] <+: dash :: rest := List.prefix_append [dash] rest
  simp only [eraseMatches, List.find?, isPrefixOf_false other, List.isPrefixOf_iff_prefix.mpr here]
  rfl

private theorem eraseMatches_skip (k : ℕ) (s : List UInt8) :
    eraseMatches [csgo, [dash]] k s = eraseMatches [csgo, [dash]] 0 (s.drop k) := by
  induction s generalizing k with
  | nil => cases k <;> simp [eraseMatches]
  | cons c s ih =>
    cases k with
    | zero => rfl
    | succ k => rw [eraseMatches, ih, List.drop_succ_cons]

theorem erased_eq (s : List UInt8) : erased s = eraseMatches [csgo, [dash]] 0 s := rfl

theorem erased_cons {c : UInt8} {rest : List UInt8} (notDash : c ≠ dash) (other : ¬ csgo <+: c :: rest) :
    erased (c :: rest) = c :: erased rest := by
  rw [erased_eq, eraseMatches_head notDash, if_neg other]
  rfl
theorem erased_csgo (rest : List UInt8) : erased (csgo ++ rest) = erased rest := by
  have starts : csgo <+: 67 :: ([83, 71, 79] ++ rest) := List.prefix_append csgo rest
  show eraseMatches [csgo, [dash]] 0 (67 :: ([83, 71, 79] ++ rest)) = _
  rw [eraseMatches_head (by decide), if_pos starts, eraseMatches_skip]
  rfl
theorem erased_dash (rest : List UInt8) : erased (dash :: rest) = erased rest := eraseMatches_dash rest

/-- A symbol outside `CSGO` ends every match, so text is erased piece by piece. -/
theorem erased_append (g : List UInt8) {x : UInt8} (other : x ∉ csgo) (rest : List UInt8) :
    erased (g ++ x :: rest) = erased g ++ erased (x :: rest) := by
  induction length : g.length using Nat.strong_induction_on generalizing g with
  | _ n ih =>
    subst length
    cases g with
    | nil => rfl
    | cons c g =>
      by_cases dashed : c = dash
      · subst dashed
        rw [List.cons_append, erased_dash, erased_dash]
        exact ih g.length (by simp) g rfl
      · by_cases starts : csgo <+: c :: g
        · obtain ⟨k, split⟩ := starts
          rw [← split, List.append_assoc, erased_csgo, erased_csgo]
          apply ih k.length _ k rfl
          have size := congrArg List.length split
          simp only [List.length_append, List.length_cons, csgo_length] at size ⊢
          omega
        · have here : ¬ csgo <+: c :: (g ++ x :: rest) := by
            rw [← List.cons_append, csgo_prefix_append other]
            exact starts
          rw [List.cons_append, erased_cons dashed here, erased_cons dashed starts, List.cons_append]
          rw [ih g.length (by simp) g rfl]

theorem erased_pieces (g : List UInt8) (gs : List (List UInt8)) :
    erased (g ++ gs.flatMap (fun h => dash :: h)) = (g :: gs).flatMap erased := by
  induction gs generalizing g with
  | nil => simp
  | cons h gs ih =>
    rw [List.flatMap_cons, List.cons_append, erased_append g (by decide), erased_dash, ih h]
    simp

/-! ## What a removal costs -/

/-- The digit sum of a text. -/
def digitSum (s : List UInt8) : ℤ := (s.map find).sum

/-- Erasing a piece without dashes takes out `k` matches of four symbols with
    digit sum 38, and it leaves a piece without a match alone. -/
theorem erased_piece {g : List UInt8} (noDash : dash ∉ g) :
    ∃ k : ℕ, (erased g).length + 4 * k = g.length ∧ digitSum (erased g) + 38 * k = digitSum g ∧
      (csgo <:+: g → 0 < k) ∧ (¬ csgo <:+: g → erased g = g) := by
  induction length : g.length using Nat.strong_induction_on generalizing g with
  | _ n ih =>
    subst length
    cases g with
    | nil => exact ⟨0, rfl, rfl, by decide, fun _ => rfl⟩
    | cons c g =>
      have notDash : c ≠ dash := fun same => noDash (by simp [same])
      by_cases starts : csgo <+: c :: g
      · have infix' := starts.isInfix
        obtain ⟨rest, split⟩ := starts
        have size := congrArg List.length split
        have sum : digitSum (csgo ++ rest) = 38 + digitSum rest := by
          rw [digitSum, List.map_append, List.sum_append]
          rfl
        rw [List.length_append, csgo_length] at size
        rw [← split] at noDash
        obtain ⟨k, lengths, sums, _, _⟩ := ih rest.length (by omega)
          (fun inside => noDash (List.mem_append_right _ inside)) rfl
        refine ⟨k + 1, ?_, ?_, fun _ => Nat.succ_pos k, fun none => absurd infix' none⟩
        · rw [← split, erased_csgo, List.length_append, csgo_length]
          omega
        · rw [← split, erased_csgo, sum, ← sums]
          push_cast
          ring
      · obtain ⟨k, lengths, sums, some, none⟩ := ih g.length (by simp) (fun inside => noDash (by simp [inside])) rfl
        rw [erased_cons notDash starts]
        refine ⟨k, ?_, ?_, ?_, ?_⟩
        · simp only [List.length_cons]; omega
        · simp only [digitSum, List.map_cons, List.sum_cons] at sums ⊢
          linarith
        · intro inside
          exact some ((List.infix_cons_iff.mp inside).resolve_left starts)
        · intro outside
          rw [none (fun inside => outside (List.infix_cons inside))]

theorem erased_subset {s : List UInt8} {c : UInt8} (member : c ∈ erased s) : c ∈ s := by
  have sub : ∀ k, ∀ c ∈ eraseMatches [csgo, [dash]] k s, c ∈ s := by
    clear member
    induction s with
    | nil => intro k c inside; cases k <;> simp [eraseMatches] at inside
    | cons d s ih =>
      intro k c inside
      cases k with
      | succ k => exact List.mem_cons_of_mem d (ih k c inside)
      | zero =>
        rw [eraseMatches] at inside
        split at inside
        · exact List.mem_cons_of_mem d (ih _ c inside)
        · rcases List.mem_cons.mp inside with rfl | later
          · simp
          · exact List.mem_cons_of_mem d (ih 0 c later)
  exact sub 0 c member

theorem erased_groups {gs : List (List UInt8)} (noDash : ∀ g ∈ gs, dash ∉ g) :
    ∃ k : ℕ, (gs.flatMap erased).length + 4 * k = gs.flatten.length ∧
      digitSum (gs.flatMap erased) + 38 * k = digitSum gs.flatten ∧
      ((∃ g ∈ gs, csgo <:+: g) → 0 < k) ∧ ((∀ g ∈ gs, ¬ csgo <:+: g) → gs.flatMap erased = gs.flatten) := by
  induction gs with
  | nil => exact ⟨0, rfl, rfl, by simp, fun _ => rfl⟩
  | cons g gs ih =>
    obtain ⟨j, length, sum, some, none⟩ := erased_piece (noDash g (by simp))
    obtain ⟨k, lengths, sums, somes, nones⟩ := ih (fun h member => noDash h (by simp [member]))
    refine ⟨j + k, ?_, ?_, ?_, ?_⟩
    · simp only [List.flatMap_cons, List.flatten_cons, List.length_append]; omega
    · simp only [List.flatMap_cons, List.flatten_cons, digitSum, List.map_append, List.sum_append] at sum sums ⊢
      push_cast
      linarith
    · rintro ⟨h, member, inside⟩
      rcases List.mem_cons.mp member with rfl | later
      · exact Nat.add_pos_left (some inside) k
      · exact Nat.add_pos_right j (somes ⟨h, later, inside⟩)
    · intro outside
      rw [List.flatMap_cons, List.flatten_cons, none (outside g (by simp)),
        nones (fun h member => outside h (by simp [member]))]

/-! ## Well-formed codes -/

theorem ofNat_byte : ∀ c ∈ dictionary, Char.ofNat (UInt8.ofNat c.toNat).toNat = c := by
  decide
theorem find_byte {c : Char} (member : c ∈ dictionary) : find (UInt8.ofNat c.toNat) = digitOf dictionary c :=
  digitOf_map (g := fun b : UInt8 => Char.ofNat b.toNat) ofNat_byte (ofNat_byte c member)
theorem dash_not_mem_bytes {g : List Char} (symbols : ∀ c ∈ g, c ∈ dictionary) : dash ∉ bytes g := by
  have others : ∀ c ∈ dictionary, UInt8.ofNat c.toNat ≠ dash := by decide
  intro inside
  obtain ⟨c, member, same⟩ := List.mem_map.mp inside
  exact others c (symbols c member) same

/-- On symbols of the dictionary, looking for `CSGO` in the bytes is looking for it in the text. -/
theorem csgo_infix_iff {g : List Char} (symbols : ∀ c ∈ g, c ∈ dictionary) :
    csgo <:+: bytes g ↔ "CSGO".toList <:+: g := by
  have back : ∀ s : List Char, (∀ c ∈ s, c ∈ dictionary) → (bytes s).map (fun b => Char.ofNat b.toNat) = s := by
    intro s members
    rw [bytes, List.map_map]
    conv_rhs => rw [← List.map_id s]
    apply List.map_congr_left
    intro c member
    exact ofNat_byte c (members c member)
  constructor
  · intro inside
    have mapped := inside.map (fun b => Char.ofNat b.toNat)
    rwa [back g symbols, csgo, back _ (by decide)] at mapped
  · intro inside
    exact inside.map (fun c => UInt8.ofNat c.toNat)

/-- What the connection's regex leaves of a well-formed code. -/
def remaining (code : SharingCode) : List UInt8 := (code.groups.map bytes).flatMap erased

section
variable (code : SharingCode)

theorem dash_not_mem_groups : ∀ g ∈ code.groups.map bytes, dash ∉ g := by
  intro g member
  obtain ⟨group, inside, rfl⟩ := List.mem_map.mp member
  exact dash_not_mem_bytes (fun c here => mem_group code inside here)

theorem regexReplace_text : regexReplace (bytes code.text) = remaining code := by
  have cut : bytes code.text = csgo ++ (code.groups.map bytes).flatMap (fun g => dash :: g) := by
    rw [SharingCode.text, bytes, List.map_append, List.map_flatMap, List.flatMap_map]
    rfl
  have pieces := erased_pieces csgo (code.groups.map bytes)
  have front : erased csgo = [] := by decide
  rw [← cut, List.flatMap_cons, front, List.nil_append] at pieces
  exact pieces

theorem flatten_bytes : (code.groups.map bytes).flatten = bytes code.symbols := by
  rw [← groups_flatten code, bytes, List.map_flatten]
  rfl
theorem digits_bytes : (bytes code.symbols).map find = code.symbols.map (digitOf dictionary) := by
  rw [bytes, List.map_map]
  apply List.map_congr_left
  intro c member
  exact find_byte (code.fromDictionary c member)

theorem mem_remaining {c : UInt8} (member : c ∈ remaining code) : c ∈ bytes dictionary := by
  obtain ⟨g, inside, here⟩ := List.mem_flatMap.mp member
  obtain ⟨group, listed, rfl⟩ := List.mem_map.mp inside
  obtain ⟨symbol, found, rfl⟩ := List.mem_map.mp (erased_subset here)
  exact List.mem_map_of_mem (mem_group code listed found)

/-- The connection reads the code as the number of what the regex leaves. -/
theorem decodeSharecode_text :
    (decodeSharecode (bytes code.text)).2.words = wordsOf (beBytes 18 (value 57 ((remaining code).map find))) := by
  rw [decodeSharecode_words, reversed, regexReplace_text, List.map_reverse, horner_reverse]

end

theorem wordsOf_beBytes_iff (m n : ℤ) : wordsOf (beBytes 18 m) = wordsOf (beBytes 18 n) ↔ m ≡ n [ZMOD 256 ^ 18] := by
  constructor
  · intro same
    have equal := wordsOf_injective (beBytes_length 18 m) (beBytes_length 18 n) same
    exact modEq_of_leBytes (List.reverse_injective equal)
  · intro same
    rw [beBytes, beBytes, leBytes_congr same]

/-- No group of the code contains `CSGO`. -/
def NoCsgo (code : SharingCode) : Prop := ∀ group ∈ code.groups, ¬ "CSGO".toList <:+: group
instance (code : SharingCode) : Decidable (NoCsgo code) := inferInstanceAs (Decidable (∀ group ∈ code.groups, _))

/-- Between one and six removals cannot be made up for by wrapping around at `2 ^ 144`:
    `k` of them change the number by `38 * k` modulo 56 and a wrap by 8. -/
private theorem no_wrap {m n s t : ℤ} {k : ℕ} (removed : 0 < k ∧ k ≤ 6) (sums : s + 38 * k = t)
    (digitsM : m ≡ s [ZMOD 56]) (digitsN : n ≡ t [ZMOD 56]) (boundM : 0 ≤ m ∧ m < 57 ^ 21)
    (boundN : 0 ≤ n ∧ n < 57 ^ 25) : ¬ m ≡ n [ZMOD 256 ^ 18] := by
  intro wrapped
  obtain ⟨q, difference⟩ := wrapped.dvd
  have notNegative : -1 < q := by
    by_contra negative
    have far : (256 : ℤ) ^ 18 * q ≤ 256 ^ 18 * (-1) := mul_le_mul_of_nonneg_left (not_lt.mp negative) (by norm_num)
    have gap : (57 : ℤ) ^ 21 < 256 ^ 18 := by norm_num
    linarith
  have small : q < 4 := by
    by_contra large
    have far : (256 : ℤ) ^ 18 * 4 ≤ 256 ^ 18 * q := mul_le_mul_of_nonneg_left (not_lt.mp large) (by norm_num)
    have gap : (57 : ℤ) ^ 25 < 256 ^ 18 * 4 := by norm_num
    linarith
  have residue : (256 : ℤ) ^ 18 ≡ 8 [ZMOD 56] := by decide
  have balance : 38 * (k : ℤ) ≡ 8 * q [ZMOD 56] := by
    calc 38 * (k : ℤ) = t - s := by linarith
      _ ≡ n - m [ZMOD 56] := (digitsN.sub digitsM).symm
      _ = 256 ^ 18 * q := difference
      _ ≡ 8 * q [ZMOD 56] := residue.mul_right q
  clear difference residue boundM boundN wrapped
  have distance := balance.dvd
  omega

/-- What the regex leaves stands for the code's number modulo `2 ^ 144` only if it
    leaves every symbol: `k` removals change the number by `38 * k` modulo 56,
    while wrapping around changes it by a small multiple of 8. -/
theorem remaining_value_iff (code : SharingCode) :
    value 57 ((remaining code).map find) ≡ code.value [ZMOD 256 ^ 18] ↔ NoCsgo code := by
  obtain ⟨k, length, sum, some, none⟩ := erased_groups (dash_not_mem_groups code)
  rw [flatten_bytes] at length sum none
  have whole : value 57 ((bytes code.symbols).map find) = code.value := by rw [digits_bytes, SharingCode.value]
  constructor
  · intro wrapped
    by_contra contained
    have removed : 0 < k := by
      simp only [NoCsgo, not_forall, not_not] at contained
      obtain ⟨group, member, inside⟩ := contained
      apply some
      refine ⟨bytes group, List.mem_map_of_mem member, ?_⟩
      exact (csgo_infix_iff (fun c here => mem_group code member here)).mpr inside
    have few : (remaining code).length + 4 * k = 25 := by
      simpa [remaining, bytes, code.twentyFive] using length
    have left : value 57 ((remaining code).map find) < 57 ^ 21 := by
      have below := Numerals.value_lt (b := 57) (by norm_num) ((remaining code).map find) (by
        intro d member
        obtain ⟨c, _, rfl⟩ := List.mem_map.mp member
        have bounds := find_bounds c
        omega)
      have shorter : ((remaining code).map find).length ≤ 21 := by rw [List.length_map]; omega
      exact below.trans_le (pow_le_pow_right₀ (by norm_num) shorter)
    have positive : 0 ≤ value 57 ((remaining code).map find) :=
      Numerals.value_nonneg (by norm_num) (by
        intro d member
        obtain ⟨c, here, rfl⟩ := List.mem_map.mp member
        exact digitOf_nonneg (mem_remaining code here))
    have sumWhole := value_modEq_sum 57 ((bytes code.symbols).map find)
    rw [whole] at sumWhole
    have total : ((remaining code).map find).sum + 38 * (k : ℤ) = ((bytes code.symbols).map find).sum := sum
    exact no_wrap ⟨removed, by omega⟩ total (value_modEq_sum 57 _) sumWhole ⟨positive, left⟩
      ⟨value_nonneg code, value_lt code⟩ wrapped
  · intro absent
    rw [← whole, remaining, none]
    intro g member
    obtain ⟨group, inside, rfl⟩ := List.mem_map.mp member
    rw [csgo_infix_iff (fun c here => mem_group code inside here)]
    exact absent group inside

/-- Where the service decodes a code, the connection decodes it to the same
    numbers exactly when no group contains `CSGO`. -/
theorem decoders_agree_iff [Collation] (code : SharingCode) (d : SharingCodeDecoded)
    (returned : fromSharingCode (some (utf16 code.text)) = .ok d) :
    (decodeSharecode (bytes code.text)).2.words = d.words ↔ NoCsgo code := by
  rw [fromSharingCode_words returned, decodeSharecode_text, wordsOf_beBytes_iff, remaining_value_iff]

/-- `CSGO-CSGO9-99999-99999-99999-99999`. -/
def doubledCode : SharingCode := ⟨"CSGO".toList ++ List.replicate 21 '9', by decide, by decide⟩

theorem sampleCode_agrees : ∃ d, @fromSharingCode ordinal (some (utf16 sampleCode.text)) = .ok d ∧
    (decodeSharecode (bytes sampleCode.text)).2.words = d.words := by
  obtain ⟨d, returned, _⟩ := @sampleCode_returned ordinal
  exact ⟨d, returned, (@decoders_agree_iff ordinal sampleCode d returned).mpr (by decide +kernel)⟩

theorem doubledCode_disagrees : ¬ ∃ _ : Collation, ∀ (code : SharingCode) (d : SharingCodeDecoded),
    fromSharingCode (some (utf16 code.text)) = .ok d →
      (decodeSharecode (bytes code.text)).2.words = d.words := by
  rintro ⟨culture, all⟩
  obtain ⟨d, returned, words⟩ := fromSharingCode_text doubledCode (by decide)
  have agreed := all doubledCode d returned
  rw [words, decodeSharecode_text, wordsOf_beBytes_iff, remaining_value_iff] at agreed
  revert agreed
  decide +kernel

end SteamworksService.Decoders
