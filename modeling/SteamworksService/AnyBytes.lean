import SteamworksService.WireFormat

/-!
# Any bytes

The parser of a message on bytes of any origin. It stays in the buffer, and a
pass takes a byte at least, so the fuel does not matter (`parseFromArray_total`).
The fields of what it accepts have the types that the schema gives them
(`merge_typed`).
-/
namespace SteamworksService.AnyBytes
open Varints CodedStream WireFormat

/-! ## Readers and unknown fields -/

/-- A reader stays in the buffer, and leaves no more than it was given. -/
def Stays {α : Type} (rest : α → List UInt8) (buffer : List UInt8) : Except Failure α → Prop
  | .ok a => (rest a).length ≤ buffer.length
  | .error e => e = .refused

section
variable {buffer : List UInt8}

theorem stays_map {α β : Type} {rest : α → List UInt8} {rest' : β → List UInt8} {f : α → β}
    (same : ∀ a, rest' (f a) = rest a) {r : Except Failure α} (stays : Stays rest buffer r) :
    Stays rest' buffer (r.map f) := by
  cases r with
  | error e => exact stays
  | ok a =>
    show (rest' (f a)).length ≤ buffer.length
    rw [same]
    exact stays

theorem found_stays {α : Type} (f : ℕ → α) : Stays Prod.snd buffer (found f (Varints.read 10 buffer)) := by
  cases number : Varints.read 10 buffer with
  | none => rfl
  | some r => exact (length_of_read number).le

theorem readVarint32_stays : Stays Prod.snd buffer (readVarint32 buffer) := by
  rw [readVarint32_eq]
  exact found_stays _

theorem readVarint64_stays : Stays Prod.snd buffer (readVarint64 buffer) := by
  rw [readVarint64_eq]
  exact found_stays _

theorem readLittleEndian32_stays : Stays Prod.snd buffer (readLittleEndian32 buffer) := by
  rw [readLittleEndian32]
  split_ifs
  · simp [Stays]
  · rfl

theorem readLittleEndian64_stays : Stays Prod.snd buffer (readLittleEndian64 buffer) := by
  rw [readLittleEndian64]
  split_ifs
  · simp [Stays]
  · rfl

theorem skip_stays (count : UInt32) : Stays id buffer (skip count buffer) := by
  rw [skip]
  split_ifs
  · simp [Stays]
  · rfl

theorem skip_behind {count : UInt32} {rest : List UInt8} (below : rest.length ≤ buffer.length) :
    Stays id buffer (skip count rest) := by
  have inside := @skip_stays rest count
  cases skipped : skip count rest with
  | error e =>
    rw [skipped] at inside
    exact inside
  | ok rest' =>
    rw [skipped] at inside
    exact inside.trans below

theorem readPrimitive_stays (kind : Kind) : Stays Prod.snd buffer (readPrimitive kind buffer) := by
  cases kind with
  | uint32 | int32 | bool => exact stays_map (fun _ => rfl) readVarint32_stays
  | uint64 => exact stays_map (fun _ => rfl) readVarint64_stays
  | fixed64 => exact stays_map (fun _ => rfl) readLittleEndian64_stays
  | float => exact stays_map (fun _ => rfl) readLittleEndian32_stays
  | string => rfl

/-- A tag that is not zero is taken off the buffer. -/
theorem readTag_cases (buffer : List UInt8) :
    (∃ rest, readTag buffer = .ok (0, rest) ∧ rest.length ≤ buffer.length) ∨
      ∃ tag rest, tag ≠ 0 ∧ readTag buffer = .ok (tag, rest) ∧ rest.length < buffer.length := by
  rw [readTag_eq]
  cases number : Varints.read 10 buffer with
  | none =>
    refine .inl ⟨_, rfl, ?_⟩
    split_ifs
    · exact le_rfl
    · exact Nat.zero_le _
  | some r =>
    have shorter := length_of_read number
    by_cases zero : UInt32.ofNat r.1 = 0
    · exact .inl ⟨r.2, by rw [← zero]; rfl, shorter.le⟩
    · exact .inr ⟨_, r.2, zero, rfl, shorter⟩

theorem addUnknown_stays {α : Type} {make : α → UnknownField} {r : Except Failure (α × List UInt8)} (number : ℕ)
    (stays : Stays Prod.snd buffer r) : Stays id buffer (addUnknown number make r).2 := by
  cases r <;> exact stays

theorem skipLengthDelimited_stays (number : ℕ) : Stays id buffer (skipLengthDelimited number buffer).2 := by
  have length := @readVarint32_stays buffer
  rw [skipLengthDelimited]
  cases read : readVarint32 buffer with
  | error e =>
    rw [read] at length
    exact length
  | ok r =>
    rw [read] at length
    dsimp only
    by_cases short : r.1.toNat < 2 ^ 31
    · rw [if_pos short]
      exact skip_behind length
    · rw [if_neg short]
      rfl

theorem endGroup_stays {r : Except Failure (UInt32 × List UInt8)} (number : ℕ) (stays : Stays Prod.snd buffer r) :
    Stays id buffer (endGroup number r) := by
  cases r with
  | error e => exact stays
  | ok r =>
    rw [endGroup]
    split_ifs
    · exact stays
    · rfl

section
variable {skipper skipper' : ℕ → List UInt8 → Merged (UInt32 × List UInt8)}

theorem skipField_stays (depth : ℕ) (tag : UInt32) (stays : ∀ depth, Stays Prod.snd buffer (skipper depth buffer).2) :
    Stays id buffer (skipField skipper depth tag buffer).2 := by
  rw [skipField]
  cases getTagWireType tag with
  | varint => exact addUnknown_stays _ readVarint64_stays
  | fixed64 => exact addUnknown_stays _ readLittleEndian64_stays
  | fixed32 => exact addUnknown_stays _ readLittleEndian32_stays
  | endGroup | reserved => rfl
  | lengthDelimited => exact skipLengthDelimited_stays _
  | startGroup =>
    dsimp only
    split_ifs
    · exact endGroup_stays _ (stays (depth + 1))
    · rfl

theorem skipField_congr (depth : ℕ) (tag : UInt32) (same : ∀ depth, skipper depth buffer = skipper' depth buffer) :
    skipField skipper depth tag buffer = skipField skipper' depth tag buffer := by
  rw [skipField, skipField]
  cases getTagWireType tag with
  | varint | fixed64 | fixed32 | endGroup | reserved | lengthDelimited => rfl
  | startGroup => simp only [same]

end

theorem skipMessage_stays (fuel depth : ℕ) : Stays Prod.snd buffer (skipMessage fuel depth buffer).2 := by
  induction fuel generalizing depth buffer with
  | zero => rfl
  | succ fuel ih =>
    rw [skipMessage]
    split_ifs with empty
    · exact Nat.zero_le _
    · rcases readTag_cases buffer with ⟨rest, zero, shorter⟩ | ⟨tag, rest, nonzero, read, shorter⟩
      · rw [zero]
        exact shorter
      · rw [read]
        dsimp only
        rw [if_neg nonzero]
        split_ifs
        · exact shorter.le
        · have field := skipField_stays depth tag (fun depth => @ih rest depth)
          cases skipped : (skipField (skipMessage fuel) depth tag rest).2 with
          | error e =>
            rw [skipped] at field
            exact field
          | ok rest' =>
            rw [skipped] at field
            have more := @ih rest' depth
            dsimp only
            cases last : (skipMessage fuel depth rest').2 with
            | error e =>
              rw [last] at more
              exact more
            | ok r =>
              rw [last] at more
              exact more.trans (field.trans shorter.le)

/-- The fuel of `skipMessage` does not matter once there is enough of it. -/
theorem skipMessage_fuel {fuel fuel' depth : ℕ} (enough : buffer.length < fuel) (enough' : buffer.length < fuel') :
    skipMessage fuel depth buffer = skipMessage fuel' depth buffer := by
  induction fuel generalizing fuel' depth buffer with
  | zero => omega
  | succ fuel ih =>
    obtain ⟨fuel', rfl⟩ : ∃ n, fuel' = n + 1 := ⟨fuel' - 1, by omega⟩
    rw [skipMessage, skipMessage]
    split_ifs with empty
    · rfl
    · rcases readTag_cases buffer with ⟨rest, zero, _⟩ | ⟨tag, rest, nonzero, read, shorter⟩
      · rw [zero]
        rfl
      · rw [read]
        dsimp only
        rw [if_neg nonzero, if_neg nonzero]
        split_ifs
        · rfl
        · have same : ∀ depth, skipMessage fuel depth rest = skipMessage fuel' depth rest := fun depth =>
            ih (by omega) (by omega)
          rw [skipField_congr depth tag same]
          have field := skipField_stays depth tag (fun depth => @skipMessage_stays rest fuel' depth)
          cases skipped : (skipField (skipMessage fuel') depth tag rest).2 with
          | error e => rfl
          | ok rest' =>
            rw [skipped] at field
            have below : rest'.length ≤ rest.length := field
            dsimp only
            rw [@ih rest' fuel' depth (by omega) (by omega)]

/-! ## Any message -/

theorem readString_stays (repeated : Bool) (number : ℕ) : Stays id buffer (readString repeated number buffer).2 := by
  have length := @readVarint32_stays buffer
  rw [readString]
  cases read : readVarint32 buffer with
  | error e =>
    rw [read] at length
    exact length
  | ok r =>
    rw [read] at length
    dsimp only
    by_cases short : r.1.toNat < 2 ^ 31
    · rw [if_pos short]
      exact skip_behind length
    · rw [if_neg short]
      rfl

theorem readScalar_stays (repeated : Bool) (number : ℕ) (kind : Kind) :
    Stays id buffer (readScalar repeated number kind buffer).2 := by
  rw [readScalar]
  split_ifs
  · exact readString_stays repeated number
  · have stays := @readPrimitive_stays buffer kind
    cases read : readPrimitive kind buffer with
    | error e =>
      rw [read] at stays
      exact stays
    | ok r =>
      rw [read] at stays
      exact stays

theorem readPacked_stays (kind : Kind) (number fuel : ℕ) :
    Stays (fun _ => []) buffer (readPacked kind number fuel buffer).2 := by
  induction fuel generalizing buffer with
  | zero => rfl
  | succ fuel ih =>
    rw [readPacked]
    split_ifs
    · exact Nat.zero_le _
    · have stays := @readPrimitive_stays buffer kind
      cases read : readPrimitive kind buffer with
      | error e =>
        rw [read] at stays
        exact stays
      | ok r =>
        have more := @ih r.2
        dsimp only
        cases last : (readPacked kind number fuel r.2).2 with
        | error e =>
          rw [last] at more
          exact more
        | ok _ => exact Nat.zero_le _

/-- A part of the buffer up to a limit of its own is read, and the rest is left. -/
theorem limited_stays {α : Type} {length : UInt32} {rest sub : List UInt8} {r : Except Failure α}
    (below : rest.length ≤ buffer.length) (inner : Stays (fun _ => []) sub r) :
    Stays id buffer (r.map (fun _ => rest.drop length.toNat)) := by
  cases r with
  | error e => exact inner
  | ok _ =>
    show (rest.drop length.toNat).length ≤ buffer.length
    rw [List.length_drop]
    omega

theorem found_shorter {α : Type} {f : ℕ → α} {a : α} {rest : List UInt8}
    (number : found f (Varints.read 10 buffer) = .ok (a, rest)) : rest.length < buffer.length := by
  cases read : Varints.read 10 buffer with
  | none =>
    rw [read] at number
    cases number
  | some r =>
    rw [read] at number
    cases number
    exact length_of_read read

/-- A primitive takes a byte at least. -/
theorem readPrimitive_shorter {kind : Kind} {value : Scalar} {rest : List UInt8}
    (read : readPrimitive kind buffer = .ok (value, rest)) : rest.length < buffer.length := by
  have mapped : ∀ {α : Type} {f : α → Scalar} {r : Except Failure (α × List UInt8)},
      (∀ a more, r = .ok (a, more) → more.length < buffer.length) →
      r.map (fun r => (f r.1, r.2)) = .ok (value, rest) → rest.length < buffer.length := by
    intro α f r shorter same
    cases r with
    | error e => cases same
    | ok r =>
      cases same
      exact shorter _ _ rfl
  have varint32 : ∀ a more, readVarint32 buffer = .ok (a, more) → more.length < buffer.length := by
    intro a more number
    rw [readVarint32_eq] at number
    exact found_shorter number
  cases kind with
  | uint32 => exact mapped (f := Scalar.uint32) varint32 read
  | int32 => exact mapped (f := fun v : UInt32 => Scalar.int32 v.toInt32) varint32 read
  | bool => exact mapped (f := fun v : UInt32 => Scalar.bool (v ≠ 0)) varint32 read
  | uint64 =>
    refine mapped (f := Scalar.uint64) ?_ read
    intro a more number
    rw [readVarint64_eq] at number
    exact found_shorter number
  | fixed64 =>
    refine mapped (f := Scalar.fixed64) ?_ read
    intro a more number
    rw [readLittleEndian64] at number
    split_ifs at number with inside
    cases number
    rw [List.length_drop]
    omega
  | float =>
    refine mapped (f := Scalar.float) ?_ read
    intro a more number
    rw [readLittleEndian32] at number
    split_ifs at number with inside
    cases number
    rw [List.length_drop]
    omega
  | string => cases read

/-- The fuel of `readPacked` does not matter once there is more of it than bytes. -/
theorem readPacked_fuel {kind : Kind} {number fuel fuel' : ℕ} (enough : buffer.length < fuel)
    (enough' : buffer.length < fuel') : readPacked kind number fuel buffer = readPacked kind number fuel' buffer := by
  induction fuel generalizing fuel' buffer with
  | zero => omega
  | succ fuel ih =>
    obtain ⟨fuel', rfl⟩ : ∃ n, fuel' = n + 1 := ⟨fuel' - 1, by omega⟩
    rw [readPacked, readPacked]
    split_ifs
    · rfl
    · cases read : readPrimitive kind buffer with
      | error e => rfl
      | ok r =>
        have shorter := readPrimitive_shorter read
        dsimp only
        rw [@ih r.2 fuel' (by omega) (by omega)]

theorem readPackedPrimitive_stays (kind : Kind) (number : ℕ) :
    Stays id buffer (readPackedPrimitive kind number buffer).2 := by
  have length := @readVarint32_stays buffer
  rw [readPackedPrimitive]
  cases read : readVarint32 buffer with
  | error e =>
    rw [read] at length
    exact length
  | ok r =>
    rw [read] at length
    exact limited_stays length (readPacked_stays kind number _)

theorem uninterpreted_stays (depth : ℕ) (tag : UInt32) : Stays id buffer (uninterpreted depth tag buffer).2 := by
  rw [uninterpreted]
  split_ifs
  · rfl
  · exact skipField_stays depth tag (fun depth => skipMessage_stays _ depth)

section
variable {τ : Type} {schema : Schema τ} {merge merge' : ℕ → τ → List UInt8 → Merged Unit}

theorem readMessage_stays (depth number : ℕ) (t : τ)
    (stays : ∀ depth t sub, Stays (fun _ => []) sub (merge depth t sub).2) :
    Stays id buffer (readMessage merge depth number t buffer).2 := by
  have length := @readVarint32_stays buffer
  rw [readMessage]
  cases read : readVarint32 buffer with
  | error e =>
    rw [read] at length
    exact length
  | ok r =>
    rw [read] at length
    dsimp only
    split_ifs
    · exact limited_stays length (stays _ t _)
    · rfl

theorem mergeField_stays (depth : ℕ) (t : τ) (tag : UInt32)
    (stays : ∀ depth t sub, Stays (fun _ => []) sub (merge depth t sub).2) :
    Stays id buffer (mergeField schema merge depth t tag buffer).2 := by
  rw [mergeField]
  cases schema.field t (getTagFieldNumber tag) with
  | none => exact uninterpreted_stays depth tag
  | some d =>
    obtain ⟨repeated, type, number⟩ := d
    cases type with
    | message t' =>
      dsimp only
      split_ifs
      · exact readMessage_stays depth number t' stays
      · exact uninterpreted_stays depth tag
    | scalar kind =>
      dsimp only
      split_ifs
      · exact readScalar_stays repeated number kind
      · exact readPackedPrimitive_stays kind number
      · exact uninterpreted_stays depth tag

/-- The parser does not leave the buffer. -/
theorem merge_stays (fuel depth : ℕ) (t : τ) :
    Stays (fun _ => []) buffer (mergePartialFromCodedStream schema fuel depth t buffer).2 := by
  induction fuel generalizing depth t buffer with
  | zero => rfl
  | succ fuel ih =>
    rw [mergePartialFromCodedStream]
    split_ifs
    · exact Nat.zero_le _
    · rcases readTag_cases buffer with ⟨rest, zero, _⟩ | ⟨tag, rest, nonzero, read, _⟩
      · rw [zero]
        rfl
      · rw [read]
        dsimp only
        rw [if_neg nonzero]
        have field : Stays id rest (mergeField schema (mergePartialFromCodedStream schema fuel) depth t tag rest).2 :=
          mergeField_stays depth t tag (fun depth t sub => @ih sub depth t)
        cases ended : (mergeField schema (mergePartialFromCodedStream schema fuel) depth t tag rest).2 with
        | error e =>
          rw [ended] at field
          exact field
        | ok rest' =>
          have more := @ih rest' depth t
          cases last : (mergePartialFromCodedStream schema fuel depth t rest').2 with
          | error e =>
            rw [last] at more
            exact more
          | ok _ => exact Nat.zero_le _

theorem readMessage_congr (depth number : ℕ) (t : τ)
    (same : ∀ depth t sub, sub.length ≤ buffer.length → merge depth t sub = merge' depth t sub) :
    readMessage merge depth number t buffer = readMessage merge' depth number t buffer := by
  have length := @readVarint32_stays buffer
  rw [readMessage, readMessage]
  cases read : readVarint32 buffer with
  | error e => rfl
  | ok r =>
    rw [read] at length
    have below : r.2.length ≤ buffer.length := length
    dsimp only
    rw [same _ _ _ (by rw [List.length_take]; omega)]

theorem mergeField_congr (depth : ℕ) (t : τ) (tag : UInt32)
    (same : ∀ depth t sub, sub.length ≤ buffer.length → merge depth t sub = merge' depth t sub) :
    mergeField schema merge depth t tag buffer = mergeField schema merge' depth t tag buffer := by
  rw [mergeField, mergeField]
  cases schema.field t (getTagFieldNumber tag) with
  | none => rfl
  | some d =>
    obtain ⟨repeated, type, number⟩ := d
    cases type with
    | message t' =>
      dsimp only
      rw [readMessage_congr depth number t' same]
    | scalar kind => rfl

/-- The fuel of the parser does not matter once there is more of it than bytes. -/
theorem merge_fuel {fuel fuel' depth : ℕ} {t : τ} (enough : buffer.length < fuel) (enough' : buffer.length < fuel') :
    mergePartialFromCodedStream schema fuel depth t buffer =
      mergePartialFromCodedStream schema fuel' depth t buffer := by
  induction fuel generalizing fuel' depth t buffer with
  | zero => omega
  | succ fuel ih =>
    obtain ⟨fuel', rfl⟩ : ∃ n, fuel' = n + 1 := ⟨fuel' - 1, by omega⟩
    rw [mergePartialFromCodedStream, mergePartialFromCodedStream]
    split_ifs
    · rfl
    · rcases readTag_cases buffer with ⟨rest, zero, _⟩ | ⟨tag, rest, nonzero, read, shorter⟩
      · rw [zero]
        rfl
      · rw [read]
        dsimp only
        rw [if_neg nonzero, if_neg nonzero]
        have same : ∀ depth t sub, sub.length ≤ rest.length → mergePartialFromCodedStream schema fuel depth t sub =
            mergePartialFromCodedStream schema fuel' depth t sub := by
          intro depth t sub below
          exact ih (by omega) (by omega)
        rw [mergeField_congr depth t tag same]
        have field : Stays id rest (mergeField schema (mergePartialFromCodedStream schema fuel') depth t tag rest).2 :=
          mergeField_stays depth t tag (fun depth t sub => merge_stays fuel' depth t)
        cases ended : (mergeField schema (mergePartialFromCodedStream schema fuel') depth t tag rest).2 with
        | error e => rfl
        | ok rest' =>
          rw [ended] at field
          have below : rest'.length ≤ rest.length := field
          dsimp only
          rw [same depth t rest' below]
/-! ## What is accepted -/

theorem typed_append {fs gs : Fields} {depth : ℕ} {t : τ} (left : fs.Typed schema depth t)
    (right : gs.Typed schema depth t) : (fs.append gs).Typed schema depth t := by
  induction fs with
  | nil => exact right
  | scalar number value rest ih => exact ⟨left.1, ih left.2⟩
  | message number value rest _ ih => exact ⟨left.1, ih left.2⟩
  | touched number rest => exact left.elim
  | unknown number value rest ih => exact ⟨left.1, ih left.2⟩
  | group number value rest _ ih => exact ⟨left.1, ih left.2⟩

/-- The tag in front of an unknown field is there to be written again. -/
theorem legal_unknown {tag : UInt32} {value : UnknownField} (nonzero : tag ≠ 0)
    (type : value.wireType = getTagWireType tag) : LegalTag (getTagFieldNumber tag) value.wireType := by
  have proper : getTagWireType tag ≠ .reserved := by
    rw [← type]
    cases value with
    | varint | fixed32 | fixed64 | lengthDelimited => exact WireType.noConfusion
  refine ⟨getTagFieldNumber_lt tag, ?_⟩
  rw [type, makeTag_getTag proper]
  exact nonzero

theorem skipped_append {fs gs : Fields} {depth : ℕ} (left : fs.Skipped depth) (right : gs.Skipped depth) :
    (fs.append gs).Skipped depth := by
  induction fs with
  | nil => exact right
  | scalar | message | touched => exact left.elim
  | unknown number value rest ih => exact ⟨left.1, ih left.2⟩
  | group number value rest _ ih => exact ⟨left.1, ih left.2⟩

theorem addUnknown_ok {α : Type} {number : ℕ} {make : α → UnknownField} {r : Except Failure (α × List UInt8)}
    {rest : List UInt8} (added : (addUnknown number make r).2 = .ok rest) :
    ∃ a, (addUnknown number make r).1 = .unknown number (make a) .nil := by
  cases r with
  | error e => cases added
  | ok r => exact ⟨r.1, rfl⟩

/-- Where a field is skipped it is kept, either with its value or as a group. -/
theorem skipField_ok {skipper : ℕ → List UInt8 → Merged (UInt32 × List UInt8)} {depth : ℕ} {tag : UInt32}
    {rest : List UInt8} (skipped : (skipField skipper depth tag buffer).2 = .ok rest) :
    (∃ value : UnknownField, value.wireType = getTagWireType tag ∧
      (skipField skipper depth tag buffer).1 = .unknown (getTagFieldNumber tag) value .nil) ∨
    (getTagWireType tag = .startGroup ∧ depth + 1 ≤ recursionLimit ∧ (∃ last, (skipper (depth + 1) buffer).2 = .ok last) ∧
      (skipField skipper depth tag buffer).1 = .group (getTagFieldNumber tag) (skipper (depth + 1) buffer).1 .nil) := by
  rw [skipField] at skipped ⊢
  cases type : getTagWireType tag with
  | varint =>
    rw [type] at skipped
    obtain ⟨value, kept⟩ := addUnknown_ok skipped
    exact .inl ⟨.varint value, rfl, kept⟩
  | fixed64 =>
    rw [type] at skipped
    obtain ⟨value, kept⟩ := addUnknown_ok skipped
    exact .inl ⟨.fixed64 value, rfl, kept⟩
  | fixed32 =>
    rw [type] at skipped
    obtain ⟨value, kept⟩ := addUnknown_ok skipped
    exact .inl ⟨.fixed32 value, rfl, kept⟩
  | endGroup | reserved =>
    rw [type] at skipped
    cases skipped
  | lengthDelimited =>
    left
    dsimp only
    rw [skipLengthDelimited]
    cases read : readVarint32 buffer with
    | error e =>
      simp only [type, skipLengthDelimited, read] at skipped
      cases skipped
    | ok r =>
      dsimp only
      split_ifs
      · exact ⟨.lengthDelimited _, rfl, rfl⟩
      · exact ⟨.lengthDelimited _, rfl, rfl⟩
  | startGroup =>
    right
    rw [type] at skipped
    dsimp only at skipped ⊢
    by_cases shallow : depth + 1 ≤ recursionLimit
    · rw [if_pos shallow] at skipped ⊢
      refine ⟨rfl, shallow, ?_, rfl⟩
      cases group : (skipper (depth + 1) buffer).2 with
      | error e =>
        simp only [group, endGroup] at skipped
        cases skipped
      | ok last => exact ⟨last, rfl⟩
    · rw [if_neg shallow] at skipped
      cases skipped

/-- A group that comes to an end has unknown fields only. -/
theorem skipMessage_skipped {fuel depth : ℕ} {last : UInt32 × List UInt8}
    (ended : (skipMessage fuel depth buffer).2 = .ok last) : (skipMessage fuel depth buffer).1.Skipped depth := by
  induction fuel generalizing depth buffer last with
  | zero => cases ended
  | succ fuel ih =>
    rw [skipMessage] at ended ⊢
    split_ifs at ended ⊢
    · trivial
    · rcases readTag_cases buffer with ⟨rest, zero, _⟩ | ⟨tag, rest, nonzero, read, _⟩
      · rw [zero]
        trivial
      · rw [read] at ended ⊢
        dsimp only at ended ⊢
        rw [if_neg nonzero] at ended ⊢
        split_ifs at ended ⊢
        · trivial
        · cases field : (skipField (skipMessage fuel) depth tag rest).2 with
          | error e =>
            rw [field] at ended
            cases ended
          | ok rest' =>
            rw [field] at ended
            dsimp only at ended ⊢
            apply skipped_append _ (ih ended)
            rcases skipField_ok field with ⟨value, type, kept⟩ | ⟨_, shallow, ⟨_, inner⟩, kept⟩
            · rw [kept]
              exact ⟨legal_unknown nonzero type, trivial⟩
            · rw [kept]
              exact ⟨⟨getTagFieldNumber_lt tag, shallow, ih inner⟩, trivial⟩

theorem readPrimitive_kind {kind : Kind} {value : Scalar} {rest : List UInt8}
    (read : readPrimitive kind buffer = .ok (value, rest)) : value.kind = kind := by
  have mapped : ∀ {α : Type} {f : α → Scalar} {r : Except Failure (α × List UInt8)}, (∀ a, (f a).kind = kind) →
      r.map (fun r => (f r.1, r.2)) = .ok (value, rest) → value.kind = kind := by
    intro α f r each same
    cases r with
    | error e => cases same
    | ok r =>
      cases same
      exact each r.1
  cases kind with
  | uint32 => exact mapped (f := Scalar.uint32) (fun _ => rfl) read
  | int32 => exact mapped (f := fun v : UInt32 => Scalar.int32 v.toInt32) (fun _ => rfl) read
  | uint64 => exact mapped (f := Scalar.uint64) (fun _ => rfl) read
  | fixed64 => exact mapped (f := Scalar.fixed64) (fun _ => rfl) read
  | bool => exact mapped (f := fun v : UInt32 => Scalar.bool (v ≠ 0)) (fun _ => rfl) read
  | float => exact mapped (f := Scalar.float) (fun _ => rfl) read
  | string => cases read

section
variable {t : τ} {number : ℕ} {repeated : Bool} {kind : Kind}

theorem readScalar_typed {depth : ℕ} {rest : List UInt8}
    (known : schema.field t number = some ⟨repeated, .scalar kind, number⟩)
    (ended : (readScalar repeated number kind buffer).2 = .ok rest) :
    (readScalar repeated number kind buffer).1.Typed schema depth t := by
  rw [readScalar] at ended ⊢
  split_ifs at ended ⊢ with isString
  · subst isString
    rw [readString] at ended ⊢
    cases read : readVarint32 buffer with
    | error e =>
      rw [read] at ended
      cases ended
    | ok r =>
      rw [read] at ended
      dsimp only at ended ⊢
      by_cases short : r.1.toNat < 2 ^ 31
      · rw [if_pos short]
        exact ⟨⟨repeated, known⟩, trivial⟩
      · rw [if_neg short] at ended
        cases ended
  · cases read : readPrimitive kind buffer with
    | error e =>
      rw [read] at ended
      cases ended
    | ok r =>
      refine ⟨⟨repeated, ?_⟩, trivial⟩
      rw [readPrimitive_kind read]
      exact known

theorem readPacked_typed {depth : ℕ} (known : schema.field t number = some ⟨repeated, .scalar kind, number⟩)
    (fuel : ℕ) : (readPacked kind number fuel buffer).1.Typed schema depth t := by
  induction fuel generalizing buffer with
  | zero => trivial
  | succ fuel ih =>
    rw [readPacked]
    split_ifs
    · trivial
    · cases read : readPrimitive kind buffer with
      | error e => trivial
      | ok r =>
        refine ⟨⟨repeated, ?_⟩, ih⟩
        rw [readPrimitive_kind read]
        exact known

theorem readMessage_typed {depth : ℕ} {t' : τ} {rest : List UInt8}
    (known : schema.field t number = some ⟨repeated, .message t', number⟩)
    (typed : ∀ sub, (merge (depth + 1) t' sub).2 = .ok () → (merge (depth + 1) t' sub).1.Typed schema (depth + 1) t')
    (ended : (readMessage merge depth number t' buffer).2 = .ok rest) :
    (readMessage merge depth number t' buffer).1.Typed schema depth t := by
  rw [readMessage] at ended ⊢
  cases read : readVarint32 buffer with
  | error e =>
    rw [read] at ended
    cases ended
  | ok r =>
    rw [read] at ended
    dsimp only at ended ⊢
    split_ifs at ended ⊢ with shallow
    · refine ⟨⟨repeated, t', known, shallow, typed _ ?_⟩, trivial⟩
      cases inner : (merge (depth + 1) t' (r.2.take r.1.toNat)).2 with
      | error e =>
        simp only [inner] at ended
        cases ended
      | ok _ => rfl

theorem uninterpreted_typed {depth : ℕ} {tag : UInt32} {rest : List UInt8} (nonzero : tag ≠ 0)
    (unknown : schema.Uninterpreted t (getTagFieldNumber tag) (getTagWireType tag))
    (ended : (uninterpreted depth tag buffer).2 = .ok rest) : (uninterpreted depth tag buffer).1.Typed schema depth t := by
  rw [uninterpreted] at ended ⊢
  split_ifs at ended ⊢
  rcases skipField_ok ended with ⟨value, type, kept⟩ | ⟨type, shallow, ⟨_, inner⟩, kept⟩
  · rw [← type] at unknown
    rw [kept]
    exact ⟨⟨legal_unknown nonzero type, unknown⟩, trivial⟩
  · rw [type] at unknown
    rw [kept]
    exact ⟨⟨getTagFieldNumber_lt tag, unknown, shallow, skipMessage_skipped inner⟩, trivial⟩

theorem mergeField_typed {depth : ℕ} {tag : UInt32} {rest : List UInt8} (nonzero : tag ≠ 0)
    (typed : ∀ t' sub, (merge (depth + 1) t' sub).2 = .ok () →
      (merge (depth + 1) t' sub).1.Typed schema (depth + 1) t')
    (ended : (mergeField schema merge depth t tag buffer).2 = .ok rest) :
    (mergeField schema merge depth t tag buffer).1.Typed schema depth t := by
  have skipped : schema.Uninterpreted t (getTagFieldNumber tag) (getTagWireType tag) →
      (uninterpreted depth tag buffer).2 = .ok rest → (uninterpreted depth tag buffer).1.Typed schema depth t :=
    uninterpreted_typed nonzero
  rw [Schema.Uninterpreted] at skipped
  rw [mergeField] at ended ⊢
  cases known : schema.field t (getTagFieldNumber tag) with
  | none =>
    rw [known] at ended skipped
    exact skipped trivial ended
  | some d =>
    have own := (Schema.field_number known).1
    rw [known] at ended skipped
    obtain ⟨repeated, type, number⟩ := d
    dsimp only at own
    subst own
    cases type with
    | message t' =>
      dsimp only at ended skipped ⊢
      split_ifs at ended ⊢ with whole
      · exact readMessage_typed known (typed t') ended
      · exact skipped whole ended
    | scalar kind =>
      dsimp only at ended skipped ⊢
      split_ifs at ended ⊢ with own packed
      · exact readScalar_typed known ended
      · rw [readPackedPrimitive]
        cases readVarint32 buffer with
        | error e => trivial
        | ok r => exact readPacked_typed known _
      · exact skipped ⟨own, packed⟩ ended

end

/-- What is accepted has fields that the schema knows, each under its type, and
    fields that are not interpreted. -/
theorem merge_typed {fuel depth : ℕ} {t : τ} (ended : (mergePartialFromCodedStream schema fuel depth t buffer).2 = .ok ()) :
    (mergePartialFromCodedStream schema fuel depth t buffer).1.Typed schema depth t := by
  induction fuel generalizing depth t buffer with
  | zero => cases ended
  | succ fuel ih =>
    rw [mergePartialFromCodedStream] at ended ⊢
    split_ifs at ended ⊢
    · trivial
    · rcases readTag_cases buffer with ⟨rest, zero, _⟩ | ⟨tag, rest, nonzero, read, _⟩
      · rw [zero] at ended
        cases ended
      · rw [read] at ended ⊢
        dsimp only at ended ⊢
        rw [if_neg nonzero] at ended ⊢
        cases field : (mergeField schema (mergePartialFromCodedStream schema fuel) depth t tag rest).2 with
        | error e =>
          rw [field] at ended
          cases ended
        | ok rest' =>
          rw [field] at ended
          exact typed_append (mergeField_typed nonzero (fun t' sub inner => ih inner) field) (ih ended)
end

end

/-! ## The parser -/

/-- Whatever the bytes are, the parser stays in them, and neither its result nor
    that of a group that is skipped or of packed values depends on the fuel. -/
theorem parseFromArray_total {τ : Type} (schema : Schema τ) (t : τ) (data : List UInt8) :
    (parseFromArray schema t data).2 ≠ .error .outside ∧
    (∀ fuel, data.length < fuel → mergePartialFromCodedStream schema fuel 0 t data = parseFromArray schema t data) ∧
    (∀ fuel depth, data.length < fuel → skipMessage fuel depth data = skipMessage (data.length + 1) depth data) ∧
    ∀ fuel kind number, data.length < fuel →
      readPacked kind number fuel data = readPacked kind number (data.length + 1) data := by
  refine ⟨?_, ?_, ?_, ?_⟩
  · intro outside
    have stays := @merge_stays data τ schema (data.length + 1) 0 t
    rw [show (mergePartialFromCodedStream schema (data.length + 1) 0 t data).2 = _ from outside] at stays
    cases stays
  · intro fuel enough
    exact merge_fuel enough (Nat.lt_succ_self _)
  · intro fuel depth enough
    exact skipMessage_fuel enough (Nat.lt_succ_self _)
  · intro fuel kind number enough
    exact readPacked_fuel enough (Nat.lt_succ_self _)

end SteamworksService.AnyBytes
