import SteamworksService.CodedStream

/-!
# The wire format

Protobuf messages as lists of fields in the order in which they are read, their
bytes, and the parser that the protobuf compiler generates for a message type.
The parser takes the types of the fields from a schema, and keeps the fields that
the schema does not know. What a message object holds of the fields, and in which
order, is in `MessageObjects`. The messages are of at most 64 MiB, the default
limit of a coded stream.
-/
namespace SteamworksService.WireFormat
open Numerals Varints CodedStream

/-! ## Tags -/

inductive WireType
  | varint
  | fixed64
  | lengthDelimited
  | startGroup
  | endGroup
  | fixed32
  | reserved
  deriving DecidableEq, Repr

def WireType.number : WireType → UInt32
  | .varint => 0
  | .fixed64 => 1
  | .lengthDelimited => 2
  | .startGroup => 3
  | .endGroup => 4
  | .fixed32 => 5
  | .reserved => 6

def makeTag (fieldNumber : ℕ) (type : WireType) : UInt32 := UInt32.ofNat fieldNumber <<< 3 ||| type.number

def getTagWireType (tag : UInt32) : WireType :=
  match (tag &&& 7).toNat with
  | 0 => .varint
  | 1 => .fixed64
  | 2 => .lengthDelimited
  | 3 => .startGroup
  | 4 => .endGroup
  | 5 => .fixed32
  | _ => .reserved

def getTagFieldNumber (tag : UInt32) : ℕ := (tag >>> 3).toNat

/-! ## Schemas -/

/-- The field types of the messages; `bytes` fields are read and written as
    `string` fields are. -/
inductive Kind
  | uint32
  | int32
  | uint64
  | fixed64
  | bool
  | float
  | string
  deriving DecidableEq, Repr

def Kind.wireType : Kind → WireType
  | .uint32 | .int32 | .uint64 | .bool => .varint
  | .fixed64 => .fixed64
  | .float => .fixed32
  | .string => .lengthDelimited

section
variable (τ : Type)

inductive FieldType
  | scalar (kind : Kind)
  | message (t : τ)
  deriving DecidableEq, Repr

structure FieldDescriptor where
  repeated : Bool
  type : FieldType τ
  number : ℕ
  deriving DecidableEq, Repr

/-- The fields of each message type, under numbers that the language allows. -/
structure Schema where
  fields : τ → List (FieldDescriptor τ)
  numbers : ∀ t, ∀ d ∈ fields t, 1 ≤ d.number ∧ d.number < 2 ^ 29

end

/-! ## Messages -/

/-- A value of a field; of a `float` its bits. -/
inductive Scalar
  | uint32 (value : UInt32)
  | int32 (value : Int32)
  | uint64 (value : UInt64)
  | fixed64 (value : UInt64)
  | bool (value : Bool)
  | float (bits : UInt32)
  | string (value : List UInt8)
  deriving DecidableEq, Repr

def Scalar.kind : Scalar → Kind
  | .uint32 _ => .uint32
  | .int32 _ => .int32
  | .uint64 _ => .uint64
  | .fixed64 _ => .fixed64
  | .bool _ => .bool
  | .float _ => .float
  | .string _ => .string

/-- A value of a field that the schema does not know. -/
inductive UnknownField
  | varint (value : UInt64)
  | fixed32 (value : UInt32)
  | fixed64 (value : UInt64)
  | lengthDelimited (value : List UInt8)
  deriving DecidableEq, Repr

def UnknownField.wireType : UnknownField → WireType
  | .varint _ => .varint
  | .fixed32 _ => .fixed32
  | .fixed64 _ => .fixed64
  | .lengthDelimited _ => .lengthDelimited

/-- The fields of a message in order, an optional one perhaps more than once. A
    field with a message has its fields. `touched` is an optional string that is
    set while its length cannot be read. Of the fields that the schema does not
    know, a group has its fields too. -/
inductive Fields
  | nil
  | scalar (number : ℕ) (value : Scalar) (rest : Fields)
  | message (number : ℕ) (value : Fields) (rest : Fields)
  | touched (number : ℕ) (rest : Fields)
  | unknown (number : ℕ) (value : UnknownField) (rest : Fields)
  | group (number : ℕ) (value : Fields) (rest : Fields)
  deriving DecidableEq, Repr

def Fields.append : Fields → Fields → Fields
  | .nil, gs => gs
  | .scalar number value fs, gs => .scalar number value (fs.append gs)
  | .message number value fs, gs => .message number value (fs.append gs)
  | .touched number fs, gs => .touched number (fs.append gs)
  | .unknown number value fs, gs => .unknown number value (fs.append gs)
  | .group number value fs, gs => .group number value (fs.append gs)

@[simp] theorem Fields.nil_append (fs : Fields) : Fields.nil.append fs = fs := rfl

/-! ## Writing -/

def writeLittleEndian32ToArray (value : UInt32) : List UInt8 := leBytes 4 value.toNat
def writeLittleEndian64ToArray (value : UInt64) : List UInt8 := leBytes 8 value.toNat

/-- `WriteUInt32NoTagToArray` and the other writers of values. -/
def Scalar.write : Scalar → List UInt8
  | .uint32 value => writeVarint32ToArray value
  | .int32 value => writeVarint32SignExtendedToArray value
  | .uint64 value => writeVarint64ToArray value
  | .fixed64 value => writeLittleEndian64ToArray value
  | .bool value => writeVarint32ToArray (if value then 1 else 0)
  | .float bits => writeLittleEndian32ToArray bits
  | .string value => writeVarint32ToArray (UInt32.ofNat value.length) ++ value

/-- `UInt32Size` and the other sizes of values. -/
def Scalar.size : Scalar → ℕ
  | .uint32 value => varintSize32 value
  | .int32 value => varintSize32SignExtended value
  | .uint64 value => varintSize64 value
  | .fixed64 _ => 8
  | .bool _ => 1
  | .float _ => 4
  | .string value => varintSize32 (UInt32.ofNat value.length) + value.length

/-- `WriteInt64ToArray` and the other writers of unknown fields, behind the tag. -/
def UnknownField.write : UnknownField → List UInt8
  | .varint value => writeVarint64ToArray value
  | .fixed32 value => writeLittleEndian32ToArray value
  | .fixed64 value => writeLittleEndian64ToArray value
  | .lengthDelimited value => writeVarint32ToArray (UInt32.ofNat value.length) ++ value

/-- The sizes in `ComputeUnknownFieldsSize`, without the tag. -/
def UnknownField.size : UnknownField → ℕ
  | .varint value => varintSize64 value
  | .fixed32 _ => 4
  | .fixed64 _ => 8
  | .lengthDelimited value => varintSize32 (UInt32.ofNat value.length) + value.length

def byteSize : Fields → ℕ
  | .nil => 0
  | .scalar number value rest => varintSize32 (makeTag number value.kind.wireType) + value.size + byteSize rest
  | .message number value rest =>
    varintSize32 (makeTag number .lengthDelimited) +
      (varintSize32 (UInt32.ofNat (byteSize value)) + byteSize value) + byteSize rest
  | .touched number rest =>
    varintSize32 (makeTag number .lengthDelimited) + (Scalar.string []).size + byteSize rest
  | .unknown number value rest => varintSize32 (makeTag number value.wireType) + value.size + byteSize rest
  | .group number value rest =>
    varintSize32 (makeTag number .startGroup) + byteSize value + varintSize32 (makeTag number .endGroup) + byteSize rest

/-- The fields in their order, each behind its tag; also `SerializeUnknownFieldsToArray`. -/
def serializeWithCachedSizesToArray : Fields → List UInt8
  | .nil => []
  | .scalar number value rest =>
    writeTagToArray (makeTag number value.kind.wireType) ++ (value.write ++ serializeWithCachedSizesToArray rest)
  | .message number value rest =>
    writeTagToArray (makeTag number .lengthDelimited) ++ (writeVarint32ToArray (UInt32.ofNat (byteSize value)) ++
      (serializeWithCachedSizesToArray value ++ serializeWithCachedSizesToArray rest))
  | .touched number rest =>
    writeTagToArray (makeTag number .lengthDelimited) ++
      ((Scalar.string []).write ++ serializeWithCachedSizesToArray rest)
  | .unknown number value rest =>
    writeTagToArray (makeTag number value.wireType) ++ (value.write ++ serializeWithCachedSizesToArray rest)
  | .group number value rest =>
    writeTagToArray (makeTag number .startGroup) ++ (serializeWithCachedSizesToArray value ++
      (writeTagToArray (makeTag number .endGroup) ++ serializeWithCachedSizesToArray rest))

/-! ## Reading -/

def readLittleEndian32 (buffer : List UInt8) : Except Failure (UInt32 × List UInt8) :=
  if 4 ≤ buffer.length then .ok (UInt32.ofNat (leValue (buffer.take 4)), buffer.drop 4) else .error .refused
def readLittleEndian64 (buffer : List UInt8) : Except Failure (UInt64 × List UInt8) :=
  if 8 ≤ buffer.length then .ok (UInt64.ofNat (leValue (buffer.take 8)), buffer.drop 8) else .error .refused

/-- `Skip`, and what `ReadString` accepts: a count that is not negative as an
    `int` and within the limit. -/
def skip (count : UInt32) (buffer : List UInt8) : Except Failure (List UInt8) :=
  if count.toNat < 2 ^ 31 ∧ count.toNat ≤ buffer.length then .ok (buffer.drop count.toNat) else .error .refused

/-- `ReadPrimitive` for the types that are not strings. -/
def readPrimitive (kind : Kind) (buffer : List UInt8) : Except Failure (Scalar × List UInt8) :=
  match kind with
  | .uint32 => (readVarint32 buffer).map (fun r => (.uint32 r.1, r.2))
  | .int32 => (readVarint32 buffer).map (fun r => (.int32 r.1.toInt32, r.2))
  | .uint64 => (readVarint64 buffer).map (fun r => (.uint64 r.1, r.2))
  | .fixed64 => (readLittleEndian64 buffer).map (fun r => (.fixed64 r.1, r.2))
  | .bool => (readVarint32 buffer).map (fun r => (.bool (r.1 ≠ 0), r.2))
  | .float => (readLittleEndian32 buffer).map (fun r => (.float r.1, r.2))
  | .string => .error .refused

/-- What was merged, and whether the function returned `true`. -/
abbrev Merged (α : Type) := Fields × Except Failure α

/-- `ReadString` into the string that `add_` or `mutable_` has handed out. A string
    that ends too early is kept as far as it goes. -/
def readString (repeated : Bool) (number : ℕ) (buffer : List UInt8) : Merged (List UInt8) :=
  let handedOut : Fields := if repeated then .scalar number (.string []) .nil else .touched number .nil
  match readVarint32 buffer with
  | .error e => (handedOut, .error e)
  | .ok (length, buffer) =>
    if length.toNat < 2 ^ 31 then
      (.scalar number (.string (buffer.take length.toNat)) .nil, skip length buffer)
    else (handedOut, .error .refused)

def readScalar (repeated : Bool) (number : ℕ) (kind : Kind) (buffer : List UInt8) : Merged (List UInt8) :=
  if kind = .string then readString repeated number buffer
  else
    match readPrimitive kind buffer with
    | .error e => (.nil, .error e)
    | .ok (value, buffer) => (.scalar number value .nil, .ok buffer)

/-- The loop of `ReadPackedPrimitive`, up to the limit. -/
def readPacked (kind : Kind) (number : ℕ) : ℕ → List UInt8 → Merged Unit
  | 0, _ => (.nil, .error .refused)
  | fuel + 1, buffer =>
    if buffer = [] then (.nil, .ok ())
    else
      match readPrimitive kind buffer with
      | .error e => (.nil, .error e)
      | .ok (value, buffer) =>
        let more := readPacked kind number fuel buffer
        (.scalar number value more.1, more.2)

/-- `ReadPackedPrimitive`. The limit of the packed values is cut to the limit around it. -/
def readPackedPrimitive (kind : Kind) (number : ℕ) (buffer : List UInt8) : Merged (List UInt8) :=
  match readVarint32 buffer with
  | .error e => (.nil, .error e)
  | .ok (length, buffer) =>
    let values := readPacked kind number (buffer.length + 1) (buffer.take length.toNat)
    (values.1, values.2.map (fun _ => buffer.drop length.toNat))

def recursionLimit : ℕ := 100
/-- `64 << 20`, above which a message may be refused. -/
def kDefaultTotalBytesLimit : ℕ := 64 * 2 ^ 20

/-- An unknown field is added behind its value. -/
def addUnknown {α : Type} (number : ℕ) (make : α → UnknownField) : Except Failure (α × List UInt8) → Merged (List UInt8)
  | .error e => (.nil, .error e)
  | .ok (value, buffer) => (.unknown number (make value) .nil, .ok buffer)

/-- `AddLengthDelimited` and `ReadString` into it. -/
def skipLengthDelimited (number : ℕ) (buffer : List UInt8) : Merged (List UInt8) :=
  match readVarint32 buffer with
  | .error e => (.nil, .error e)
  | .ok (length, buffer) =>
    if length.toNat < 2 ^ 31 then
      (.unknown number (.lengthDelimited (buffer.take length.toNat)) .nil, skip length buffer)
    else (.unknown number (.lengthDelimited []) .nil, .error .refused)

/-- The tag that has ended a group must be that of its end. -/
def endGroup (number : ℕ) : Except Failure (UInt32 × List UInt8) → Except Failure (List UInt8)
  | .error e => .error e
  | .ok (lastTag, buffer) => if lastTag = makeTag number .endGroup then .ok buffer else .error .refused

def skipField (skipMessage : ℕ → List UInt8 → Merged (UInt32 × List UInt8)) (depth : ℕ) (tag : UInt32)
    (buffer : List UInt8) : Merged (List UInt8) :=
  let number := getTagFieldNumber tag
  match getTagWireType tag with
  | .varint => addUnknown number .varint (readVarint64 buffer)
  | .fixed64 => addUnknown number .fixed64 (readLittleEndian64 buffer)
  | .lengthDelimited => skipLengthDelimited number buffer
  | .startGroup =>
    if depth + 1 ≤ recursionLimit then
      let group := skipMessage (depth + 1) buffer
      (.group number group.1 .nil, endGroup number group.2)
    else (.nil, .error .refused)
  | .endGroup => (.nil, .error .refused)
  | .fixed32 => addUnknown number .fixed32 (readLittleEndian32 buffer)
  | .reserved => (.nil, .error .refused)

/-- `SkipMessage`, with the tag that it has read last. -/
def skipMessage : ℕ → ℕ → List UInt8 → Merged (UInt32 × List UInt8)
  | 0, _, _ => (.nil, .error .refused)
  | fuel + 1, depth, buffer =>
    if buffer = [] then (.nil, .ok (0, []))
    else
      match readTag buffer with
      | .error e => (.nil, .error e)
      | .ok (tag, buffer) =>
        if tag = 0 then (.nil, .ok (0, buffer))
        else if getTagWireType tag = .endGroup then (.nil, .ok (tag, buffer))
        else
          let field := skipField (skipMessage fuel) depth tag buffer
          match field.2 with
          | .error e => (field.1, .error e)
          | .ok buffer =>
            let more := skipMessage fuel depth buffer
            (field.1.append more.1, more.2)

section
variable {τ : Type} (schema : Schema τ)

/-- `ReadMessageNoVirtual`. The limit of the message is cut to the limit around
    it, so a message that is too short is read as far as it goes. -/
def readMessage (merge : ℕ → τ → List UInt8 → Merged Unit) (depth number : ℕ) (t : τ) (buffer : List UInt8) :
    Merged (List UInt8) :=
  match readVarint32 buffer with
  | .error e => (.message number .nil .nil, .error e)
  | .ok (length, buffer) =>
    if depth + 1 ≤ recursionLimit then
      let value := merge (depth + 1) t (buffer.take length.toNat)
      (.message number value.1 .nil, value.2.map (fun _ => buffer.drop length.toNat))
    else (.message number .nil .nil, .error .refused)

/-- `handle_uninterpreted`. At the end of a group the generated code returns
    `true`, but not at the end of the message, which its callers refuse. -/
def uninterpreted (depth : ℕ) (tag : UInt32) (buffer : List UInt8) : Merged (List UInt8) :=
  if getTagWireType tag = .endGroup then (.nil, .error .refused)
  else skipField (skipMessage (buffer.length + 1)) depth tag buffer

def Schema.field (t : τ) (number : ℕ) : Option (FieldDescriptor τ) :=
  (schema.fields t).find? (fun d => d.number = number)

/-- The case of the `switch` for a tag. -/
def mergeField (merge : ℕ → τ → List UInt8 → Merged Unit) (depth : ℕ) (t : τ) (tag : UInt32) (buffer : List UInt8) :
    Merged (List UInt8) :=
  match schema.field t (getTagFieldNumber tag) with
  | none => uninterpreted depth tag buffer
  | some d =>
    match d.type with
    | .message t' =>
      if getTagWireType tag = .lengthDelimited then readMessage merge depth d.number t' buffer
      else uninterpreted depth tag buffer
    | .scalar kind =>
      if getTagWireType tag = kind.wireType then readScalar d.repeated d.number kind buffer
      else if d.repeated = true ∧ getTagWireType tag = .lengthDelimited then readPackedPrimitive kind d.number buffer
      else uninterpreted depth tag buffer

/-- `MergePartialFromCodedStream` up to the limit, and whether it has consumed
    the entire message. -/
def mergePartialFromCodedStream : ℕ → ℕ → τ → List UInt8 → Merged Unit
  | 0, _, _, _ => (.nil, .error .refused)
  | fuel + 1, depth, t, buffer =>
    if buffer = [] then (.nil, .ok ())
    else
      match readTag buffer with
      | .error e => (.nil, .error e)
      | .ok (tag, buffer) =>
        if tag = 0 then (.nil, .error .refused)
        else
          let field := mergeField schema (mergePartialFromCodedStream fuel) depth t tag buffer
          match field.2 with
          | .error e => (field.1, .error e)
          | .ok buffer =>
            let more := mergePartialFromCodedStream fuel depth t buffer
            (field.1.append more.1, more.2)

/-- `ParseFromArray`: a pass over each field takes a byte at least. -/
def parseFromArray (t : τ) (data : List UInt8) : Merged Unit :=
  mergePartialFromCodedStream schema (data.length + 1) 0 t data

end

/-! ## Tags of fields -/

theorem makeTag_toNat {n : ℕ} (legal : n < 2 ^ 29) (w : WireType) : (makeTag n w).toNat = w.number.toNat + n * 2 ^ 3 := by
  have small : w.number.toNat < 2 ^ 3 := by
    cases w <;> decide
  have number : (UInt32.ofNat n).toNat = n := by
    rw [UInt32.toNat_ofNat']
    omega
  have joined := or_shift32 w.number (UInt32.ofNat n) (k := 3) (by norm_num) small
  rw [number, Nat.mod_eq_of_lt (by omega)] at joined
  rw [makeTag, UInt32.or_comm]
  exact joined

theorem getTagFieldNumber_makeTag {n : ℕ} (legal : n < 2 ^ 29) (w : WireType) : getTagFieldNumber (makeTag n w) = n := by
  have small : w.number.toNat < 8 := by
    cases w <;> decide
  have tag := makeTag_toNat legal w
  rw [getTagFieldNumber, UInt32.toNat_shiftRight, Nat.shiftRight_eq_div_pow, tag]
  simp only [UInt32.reduceToNat, Nat.reduceMod]
  omega

theorem getTagWireType_makeTag {n : ℕ} (legal : n < 2 ^ 29) (w : WireType) : getTagWireType (makeTag n w) = w := by
  have low : (makeTag n w &&& 7).toNat = w.number.toNat := by
    have small : w.number.toNat < 8 := by
      cases w <;> decide
    have tag := makeTag_toNat legal w
    have mask : (makeTag n w &&& 7).toNat = (makeTag n w).toNat % 8 := by
      rw [UInt32.toNat_and]
      exact Nat.and_two_pow_sub_one_eq_mod _ 3
    omega
  rw [getTagWireType, low]
  cases w <;> rfl

theorem makeTag_ne_zero {n : ℕ} (positive : 1 ≤ n) (legal : n < 2 ^ 29) (w : WireType) : makeTag n w ≠ 0 := by
  intro zero
  have tag := makeTag_toNat legal w
  rw [zero] at tag
  simp only [UInt32.reduceToNat] at tag
  omega

/-- A tag is put together again of its number and its type, if that is one. -/
theorem makeTag_getTag {tag : UInt32} (proper : getTagWireType tag ≠ .reserved) :
    makeTag (getTagFieldNumber tag) (getTagWireType tag) = tag := by
  have bound := tag.toNat_lt
  have number : getTagFieldNumber tag = tag.toNat / 8 := by
    rw [getTagFieldNumber, UInt32.toNat_shiftRight, Nat.shiftRight_eq_div_pow]
    rfl
  have low : (tag &&& 7).toNat = tag.toNat % 8 := by
    rw [UInt32.toNat_and]
    exact Nat.and_two_pow_sub_one_eq_mod _ 3
  have type : (getTagWireType tag).number.toNat = tag.toNat % 8 := by
    rw [getTagWireType, low] at proper ⊢
    have below : tag.toNat % 8 < 8 := Nat.mod_lt _ (by norm_num)
    interval_cases tag.toNat % 8 <;> first | rfl | exact absurd rfl proper
  apply UInt32.toNat_inj.mp
  rw [makeTag_toNat (by omega), type, number]
  omega

theorem getTagFieldNumber_lt (tag : UInt32) : getTagFieldNumber tag < 2 ^ 29 := by
  have bound := tag.toNat_lt
  rw [getTagFieldNumber, UInt32.toNat_shiftRight, Nat.shiftRight_eq_div_pow]
  simp only [UInt32.reduceToNat, Nat.reduceMod]
  omega

/-- A tag that can be written and that is not taken for the end of the input. -/
structure LegalTag (number : ℕ) (type : WireType) : Prop where
  small : number < 2 ^ 29
  nonzero : makeTag number type ≠ 0

/-! ## Values -/

theorem leValue_word (k n : ℕ) (small : n < 256 ^ k) : leValue (leBytes k n) = n := by
  have whole := leValue_leBytes k n
  rw [Int.emod_eq_of_lt (by positivity) (by exact_mod_cast small)] at whole
  exact_mod_cast whole

theorem readLittleEndian32_write (value : UInt32) (s : List UInt8) :
    readLittleEndian32 (writeLittleEndian32ToArray value ++ s) = .ok (value, s) := by
  have length : (writeLittleEndian32ToArray value).length = 4 := leBytes_length 4 _
  rw [readLittleEndian32, if_pos (by rw [List.length_append]; omega), List.take_left' length, List.drop_left' length,
    writeLittleEndian32ToArray, leValue_word 4 _ (value.toNat_lt.trans_eq (by norm_num)), UInt32.ofNat_toNat]

theorem readLittleEndian64_write (value : UInt64) (s : List UInt8) :
    readLittleEndian64 (writeLittleEndian64ToArray value ++ s) = .ok (value, s) := by
  have length : (writeLittleEndian64ToArray value).length = 8 := leBytes_length 8 _
  rw [readLittleEndian64, if_pos (by rw [List.length_append]; omega), List.take_left' length, List.drop_left' length,
    writeLittleEndian64ToArray, leValue_word 8 _ (value.toNat_lt.trans_eq (by norm_num)), UInt64.ofNat_toNat]

theorem length_word {n : ℕ} (short : n < 2 ^ 31) : (UInt32.ofNat n).toNat = n := by
  rw [UInt32.toNat_ofNat']
  omega

theorem readString_write {repeated : Bool} {number : ℕ} {value : List UInt8} (short : value.length < 2 ^ 31)
    (s : List UInt8) : readString repeated number (Scalar.write (.string value) ++ s) =
      (.scalar number (.string value) .nil, .ok s) := by
  have length := length_word short
  rw [readString, Scalar.write, List.append_assoc, readVarint32_write]
  simp only [length, if_pos short, List.take_left, skip, List.length_append, Nat.le_add_right, and_true, List.drop_left]

/-- A value is read back in front of anything. -/
theorem readScalar_write {repeated : Bool} {number : ℕ} {value : Scalar} (short : value.write.length < 2 ^ 31)
    (s : List UInt8) : readScalar repeated number value.kind (value.write ++ s) =
      (.scalar number value .nil, .ok s) := by
  cases value with
  | uint32 value => simp [readScalar, readPrimitive, Scalar.kind, Scalar.write, readVarint32_write, Except.map]
  | int32 value => simp [readScalar, readPrimitive, Scalar.kind, Scalar.write, readVarint32_writeSignExtended, Except.map]
  | uint64 value => simp [readScalar, readPrimitive, Scalar.kind, Scalar.write, readVarint64_write, Except.map]
  | fixed64 value => simp [readScalar, readPrimitive, Scalar.kind, Scalar.write, readLittleEndian64_write, Except.map]
  | bool value =>
    cases value <;> simp [readScalar, readPrimitive, Scalar.kind, Scalar.write, readVarint32_write, Except.map]
  | float bits => simp [readScalar, readPrimitive, Scalar.kind, Scalar.write, readLittleEndian32_write, Except.map]
  | string value =>
    rw [Scalar.write, List.length_append] at short
    rw [readScalar, Scalar.kind, if_pos rfl]
    exact readString_write (by omega) s

theorem size_eq (value : Scalar) : value.size = value.write.length := by
  cases value with
  | uint32 value => rw [Scalar.size, Scalar.write, varintSize32_eq, writeVarint32ToArray_eq]
  | int32 value => rw [Scalar.size, Scalar.write, varintSize32SignExtended_eq]
  | uint64 value => rw [Scalar.size, Scalar.write, varintSize64_eq, writeVarint64ToArray_eq]
  | fixed64 value => exact (leBytes_length 8 _).symm
  | bool value => cases value <;> rfl
  | float bits => exact (leBytes_length 4 _).symm
  | string value => rw [Scalar.size, Scalar.write, List.length_append, varintSize32_eq, writeVarint32ToArray_eq]

theorem UnknownField.size_eq (value : UnknownField) : value.size = value.write.length := by
  cases value with
  | varint value => rw [UnknownField.size, UnknownField.write, varintSize64_eq, writeVarint64ToArray_eq]
  | fixed32 value => exact (leBytes_length 4 _).symm
  | fixed64 value => exact (leBytes_length 8 _).symm
  | lengthDelimited value =>
    rw [UnknownField.size, UnknownField.write, List.length_append, varintSize32_eq, writeVarint32ToArray_eq]

theorem byteSize_eq (fields : Fields) : byteSize fields = (serializeWithCachedSizesToArray fields).length := by
  induction fields with
  | nil => rfl
  | scalar number value rest ih =>
    rw [byteSize, serializeWithCachedSizesToArray, List.length_append, List.length_append, varintSize32_eq,
      writeTagToArray_eq, size_eq, ih]
    omega
  | message number value rest ihValue ihRest =>
    rw [byteSize, serializeWithCachedSizesToArray, List.length_append, List.length_append, List.length_append,
      varintSize32_eq, varintSize32_eq, writeTagToArray_eq, writeVarint32ToArray_eq, ihValue, ihRest]
    omega
  | touched number rest ih =>
    rw [byteSize, serializeWithCachedSizesToArray, List.length_append, List.length_append, varintSize32_eq,
      writeTagToArray_eq, size_eq, ih]
    omega
  | unknown number value rest ih =>
    rw [byteSize, serializeWithCachedSizesToArray, List.length_append, List.length_append, varintSize32_eq,
      writeTagToArray_eq, value.size_eq, ih]
    omega
  | group number value rest ihValue ihRest =>
    rw [byteSize, serializeWithCachedSizesToArray, List.length_append, List.length_append, List.length_append,
      varintSize32_eq, varintSize32_eq, writeTagToArray_eq, writeTagToArray_eq, ihValue, ihRest]
    omega

/-! ## Unknown fields -/

theorem UnknownField.wireType_ne (value : UnknownField) : value.wireType ≠ .endGroup := by
  cases value with
  | varint | fixed32 | fixed64 | lengthDelimited => exact WireType.noConfusion

section
variable {skipper : ℕ → List UInt8 → Merged (UInt32 × List UInt8)} {depth number : ℕ}

/-- An unknown value is read back in front of anything. -/
theorem skipField_unknown {value : UnknownField} (legal : LegalTag number value.wireType)
    (short : value.write.length < 2 ^ 31) (s : List UInt8) :
    skipField skipper depth (makeTag number value.wireType) (value.write ++ s) = (.unknown number value .nil, .ok s) := by
  rw [skipField, getTagFieldNumber_makeTag legal.small, getTagWireType_makeTag legal.small]
  cases value with
  | varint value => simp only [UnknownField.wireType, UnknownField.write, readVarint64_write, addUnknown]
  | fixed32 value => simp only [UnknownField.wireType, UnknownField.write, readLittleEndian32_write, addUnknown]
  | fixed64 value => simp only [UnknownField.wireType, UnknownField.write, readLittleEndian64_write, addUnknown]
  | lengthDelimited value =>
    rw [UnknownField.write, List.length_append] at short
    have below : value.length < 2 ^ 31 := by omega
    have length := length_word below
    simp only [UnknownField.wireType, UnknownField.write]
    rw [skipLengthDelimited, List.append_assoc, readVarint32_write]
    simp only [length, if_pos below, List.take_left, skip, List.length_append, Nat.le_add_right, and_true, List.drop_left]

theorem skipField_group (legal : number < 2 ^ 29) (shallow : depth + 1 ≤ recursionLimit) (s : List UInt8) :
    skipField skipper depth (makeTag number .startGroup) s =
      (.group number (skipper (depth + 1) s).1 .nil, endGroup number (skipper (depth + 1) s).2) := by
  rw [skipField, getTagFieldNumber_makeTag legal, getTagWireType_makeTag legal]
  simp only [if_pos shallow]

end

theorem length_tag_pos (tag : UInt32) : 0 < (writeTagToArray tag).length := by
  rw [writeTagToArray_eq]
  exact length_varint_pos _

theorem tag_append_ne_nil (tag : UInt32) (s : List UInt8) : writeTagToArray tag ++ s ≠ [] := by
  intro empty
  have lengths := congrArg List.length empty
  have some := length_tag_pos tag
  rw [List.length_append, List.length_nil] at lengths
  omega

/-- A pass over a field of a group that begins with its tag. -/
theorem skipMessage_tag {fuel depth number : ℕ} {w : WireType} (legal : LegalTag number w) (field : w ≠ .endGroup)
    (s : List UInt8) : skipMessage (fuel + 1) depth (writeTagToArray (makeTag number w) ++ s) =
      match (skipField (skipMessage fuel) depth (makeTag number w) s).2 with
      | .error e => ((skipField (skipMessage fuel) depth (makeTag number w) s).1, .error e)
      | .ok buffer =>
        ((skipField (skipMessage fuel) depth (makeTag number w) s).1.append (skipMessage fuel depth buffer).1,
          (skipMessage fuel depth buffer).2) := by
  rw [skipMessage, if_neg (tag_append_ne_nil _ s), readTag_write]
  simp only [if_neg legal.nonzero, getTagWireType_makeTag legal.small, if_neg field]

/-- Fields of a group that is not known, none of them nested too deeply. -/
def Fields.Skipped (depth : ℕ) : Fields → Prop
  | .nil => True
  | .unknown number value rest => LegalTag number value.wireType ∧ rest.Skipped depth
  | .group number value rest =>
    (number < 2 ^ 29 ∧ depth + 1 ≤ recursionLimit ∧ value.Skipped (depth + 1)) ∧ rest.Skipped depth
  | .scalar .. | .message .. | .touched .. => False

/-- The tags of groups are never zero. -/
theorem legal_group {number : ℕ} (small : number < 2 ^ 29) {w : WireType} (type : w ≠ .varint) : LegalTag number w := by
  refine ⟨small, ?_⟩
  intro zero
  have tag := makeTag_toNat small w
  have some : 0 < w.number.toNat := by
    cases w <;> first | exact absurd rfl type | decide
  rw [zero] at tag
  simp only [UInt32.reduceToNat] at tag
  omega

/-- An unknown field is taken off, and the group goes on behind it. -/
theorem skipMessage_unknown {fuel depth number : ℕ} {value : UnknownField} (legal : LegalTag number value.wireType)
    (short : value.write.length < 2 ^ 31) (s : List UInt8) :
    skipMessage (fuel + 1) depth (writeTagToArray (makeTag number value.wireType) ++ (value.write ++ s)) =
      (.unknown number value (skipMessage fuel depth s).1, (skipMessage fuel depth s).2) := by
  rw [skipMessage_tag legal value.wireType_ne, skipField_unknown legal short]
  rfl

/-- The fields of a group are read back up to the tag that ends it. -/
theorem skipMessage_write {fields : Fields} {fuel depth number : ℕ} (skipped : fields.Skipped depth)
    (legal : number < 2 ^ 29) (short : (serializeWithCachedSizesToArray fields).length < 2 ^ 31)
    (enough : (serializeWithCachedSizesToArray fields).length < fuel) (s : List UInt8) :
    skipMessage fuel depth (serializeWithCachedSizesToArray fields ++ (writeTagToArray (makeTag number .endGroup) ++ s)) =
      (fields, .ok (makeTag number .endGroup, s)) := by
  induction fields generalizing fuel depth number s with
  | nil =>
    obtain ⟨fuel, rfl⟩ : ∃ n, fuel = n + 1 := ⟨fuel - 1, by omega⟩
    have ended : LegalTag number .endGroup := legal_group legal (by decide)
    rw [serializeWithCachedSizesToArray, List.nil_append, skipMessage, if_neg (tag_append_ne_nil _ s), readTag_write]
    simp only [if_neg ended.nonzero, getTagWireType_makeTag legal, if_true]
  | scalar | message | touched => exact skipped.elim
  | unknown number' value rest ih =>
    obtain ⟨fuel, rfl⟩ : ∃ n, fuel = n + 1 := ⟨fuel - 1, by omega⟩
    obtain ⟨tagged, skipped⟩ := skipped
    have tag := length_tag_pos (makeTag number' value.wireType)
    rw [serializeWithCachedSizesToArray, List.length_append, List.length_append] at short enough
    rw [serializeWithCachedSizesToArray, List.append_assoc, List.append_assoc, skipMessage_unknown tagged (by omega),
      ih skipped legal (by omega) (by omega)]
  | group number' value rest ihValue ihRest =>
    obtain ⟨fuel, rfl⟩ : ∃ n, fuel = n + 1 := ⟨fuel - 1, by omega⟩
    obtain ⟨⟨small, shallow, inner⟩, skipped⟩ := skipped
    have tag := length_tag_pos (makeTag number' .startGroup)
    rw [serializeWithCachedSizesToArray, List.length_append, List.length_append, List.length_append] at short enough
    have inside := @ihValue fuel (depth + 1) number' inner small (by omega) (by omega)
    have behind := @ihRest fuel depth number skipped legal (by omega) (by omega) s
    rw [serializeWithCachedSizesToArray, List.append_assoc, List.append_assoc, List.append_assoc,
      skipMessage_tag (legal_group small (by decide)) (by decide), skipField_group small shallow, inside]
    simp only [endGroup, if_true, behind]
    rfl

/-! ## Reading what was written -/

section
variable {τ : Type} (schema : Schema τ)

/-- The type of the message has no field under the number, or one of another wire
    type, which is not packed either. -/
def Schema.Uninterpreted (t : τ) (number : ℕ) (w : WireType) : Prop :=
  match schema.field t number with
  | none => True
  | some d =>
    match d.type with
    | .message _ => w ≠ .lengthDelimited
    | .scalar kind => w ≠ kind.wireType ∧ ¬ (d.repeated = true ∧ w = .lengthDelimited)

/-- The schema knows every field under its type, or the field is not interpreted,
    and no message and no group is nested too deeply. As on the wire the fields
    may stand in any order, and optional ones more than once. -/
def Fields.Typed (depth : ℕ) (t : τ) : Fields → Prop
  | .nil => True
  | .scalar number value rest =>
    (∃ repeated, schema.field t number = some ⟨repeated, .scalar value.kind, number⟩) ∧ rest.Typed depth t
  | .message number value rest =>
    (∃ repeated t', schema.field t number = some ⟨repeated, .message t', number⟩ ∧ depth + 1 ≤ recursionLimit ∧
      value.Typed (depth + 1) t') ∧ rest.Typed depth t
  | .touched _ _ => False
  | .unknown number value rest =>
    (LegalTag number value.wireType ∧ schema.Uninterpreted t number value.wireType) ∧ rest.Typed depth t
  | .group number value rest =>
    (number < 2 ^ 29 ∧ schema.Uninterpreted t number .startGroup ∧ depth + 1 ≤ recursionLimit ∧
      value.Skipped (depth + 1)) ∧ rest.Typed depth t

variable {schema}

theorem Schema.field_number {t : τ} {number : ℕ} {d : FieldDescriptor τ} (known : schema.field t number = some d) :
    d.number = number ∧ 1 ≤ number ∧ number < 2 ^ 29 := by
  have same : d.number = number := by simpa using List.find?_some known
  subst same
  exact ⟨rfl, schema.numbers t d (List.mem_of_find?_eq_some known)⟩

theorem mergeField_scalar {merge : ℕ → τ → List UInt8 → Merged Unit} {depth : ℕ} {t : τ} {number : ℕ} {value : Scalar}
    {repeated : Bool} (known : schema.field t number = some ⟨repeated, .scalar value.kind, number⟩)
    (buffer : List UInt8) : mergeField schema merge depth t (makeTag number value.kind.wireType) buffer =
      readScalar repeated number value.kind buffer := by
  obtain ⟨_, _, legal⟩ := Schema.field_number known
  rw [mergeField, getTagFieldNumber_makeTag legal, known, getTagWireType_makeTag legal]
  simp only [if_true]

theorem mergeField_message {merge : ℕ → τ → List UInt8 → Merged Unit} {depth : ℕ} {t t' : τ} {number : ℕ}
    {repeated : Bool} (known : schema.field t number = some ⟨repeated, .message t', number⟩) (buffer : List UInt8) :
    mergeField schema merge depth t (makeTag number .lengthDelimited) buffer =
      readMessage merge depth number t' buffer := by
  obtain ⟨_, _, legal⟩ := Schema.field_number known
  rw [mergeField, getTagFieldNumber_makeTag legal, known, getTagWireType_makeTag legal]
  simp only [if_true]

theorem mergeField_uninterpreted {merge : ℕ → τ → List UInt8 → Merged Unit} {depth : ℕ} {t : τ} {number : ℕ}
    {w : WireType} (legal : number < 2 ^ 29) (field : w ≠ .endGroup) (unknown : schema.Uninterpreted t number w)
    (buffer : List UInt8) : mergeField schema merge depth t (makeTag number w) buffer =
      skipField (skipMessage (buffer.length + 1)) depth (makeTag number w) buffer := by
  have skipped : uninterpreted depth (makeTag number w) buffer =
      skipField (skipMessage (buffer.length + 1)) depth (makeTag number w) buffer := by
    rw [uninterpreted, getTagWireType_makeTag legal, if_neg field]
  rw [mergeField, getTagFieldNumber_makeTag legal, getTagWireType_makeTag legal]
  rw [Schema.Uninterpreted] at unknown
  cases known : schema.field t number with
  | none => exact skipped
  | some d =>
    obtain ⟨repeated, type, n⟩ := d
    rw [known] at unknown
    cases type with
    | message t' => simp only [if_neg unknown, skipped]
    | scalar kind => simp only [if_neg unknown.1, if_neg unknown.2, skipped]

theorem known_tag {t : τ} {number : ℕ} {d : FieldDescriptor τ} (known : schema.field t number = some d)
    (w : WireType) : makeTag number w ≠ 0 := by
  obtain ⟨_, positive, legal⟩ := Schema.field_number known
  exact makeTag_ne_zero positive legal w

/-- A pass over a field that begins with its tag. -/
theorem merge_tag {fuel depth : ℕ} {t : τ} {number : ℕ} {w : WireType} (nonzero : makeTag number w ≠ 0)
    (s : List UInt8) :
    mergePartialFromCodedStream schema (fuel + 1) depth t (writeTagToArray (makeTag number w) ++ s) =
      match (mergeField schema (mergePartialFromCodedStream schema fuel) depth t (makeTag number w) s).2 with
      | .error e =>
        ((mergeField schema (mergePartialFromCodedStream schema fuel) depth t (makeTag number w) s).1, .error e)
      | .ok buffer =>
        ((mergeField schema (mergePartialFromCodedStream schema fuel) depth t (makeTag number w) s).1.append
          (mergePartialFromCodedStream schema fuel depth t buffer).1,
          (mergePartialFromCodedStream schema fuel depth t buffer).2) := by
  rw [mergePartialFromCodedStream, if_neg (tag_append_ne_nil _ s), readTag_write]
  simp only [if_neg nonzero]

/-- A scalar is read, and the parser goes on behind it. -/
theorem merge_scalar {fuel depth : ℕ} {t : τ} {number : ℕ} {value : Scalar} {repeated : Bool}
    (known : schema.field t number = some ⟨repeated, .scalar value.kind, number⟩)
    (short : value.write.length < 2 ^ 31) (s : List UInt8) :
    mergePartialFromCodedStream schema (fuel + 1) depth t
        (writeTagToArray (makeTag number value.kind.wireType) ++ (value.write ++ s)) =
      (.scalar number value (mergePartialFromCodedStream schema fuel depth t s).1,
        (mergePartialFromCodedStream schema fuel depth t s).2) := by
  rw [merge_tag (known_tag known _), mergeField_scalar known, readScalar_write short]
  rfl

theorem byteSize_word {fields : Fields} (short : (serializeWithCachedSizesToArray fields).length < 2 ^ 31) :
    (UInt32.ofNat (byteSize fields)).toNat = (serializeWithCachedSizesToArray fields).length := by
  rw [byteSize_eq, length_word short]

/-- The size of a message is read, and the message is what the bytes within it are read as. -/
theorem readMessage_write {merge : ℕ → τ → List UInt8 → Merged Unit} {depth : ℕ} {t : τ} {number : ℕ} {value : Fields}
    (shallow : depth + 1 ≤ recursionLimit) (short : (serializeWithCachedSizesToArray value).length < 2 ^ 31)
    (s : List UInt8) :
    readMessage merge depth number t (writeVarint32ToArray (UInt32.ofNat (byteSize value)) ++ s) =
      (.message number (merge (depth + 1) t (s.take (serializeWithCachedSizesToArray value).length)).1 .nil,
        (merge (depth + 1) t (s.take (serializeWithCachedSizesToArray value).length)).2.map
          (fun _ => s.drop (serializeWithCachedSizesToArray value).length)) := by
  rw [readMessage, readVarint32_write]
  simp only [if_pos shallow, byteSize_word short]

/-- A message that is read back, and the parser goes on behind it. -/
theorem merge_message {fuel depth : ℕ} {t t' : τ} {number : ℕ} {value : Fields} {repeated : Bool}
    (known : schema.field t number = some ⟨repeated, .message t', number⟩) (shallow : depth + 1 ≤ recursionLimit)
    (short : (serializeWithCachedSizesToArray value).length < 2 ^ 31)
    (accepted : mergePartialFromCodedStream schema fuel (depth + 1) t' (serializeWithCachedSizesToArray value) =
      (value, .ok ())) (s : List UInt8) :
    mergePartialFromCodedStream schema (fuel + 1) depth t (writeTagToArray (makeTag number .lengthDelimited) ++
        (writeVarint32ToArray (UInt32.ofNat (byteSize value)) ++ (serializeWithCachedSizesToArray value ++ s))) =
      (.message number value (mergePartialFromCodedStream schema fuel depth t s).1,
        (mergePartialFromCodedStream schema fuel depth t s).2) := by
  rw [merge_tag (known_tag known _), mergeField_message known, readMessage_write shallow short, List.take_left, List.drop_left,
    accepted]
  rfl

/-- An unknown field is kept, and the parser goes on behind it. -/
theorem merge_unknown {fuel depth : ℕ} {t : τ} {number : ℕ} {value : UnknownField}
    (legal : LegalTag number value.wireType) (unknown : schema.Uninterpreted t number value.wireType)
    (short : value.write.length < 2 ^ 31) (s : List UInt8) :
    mergePartialFromCodedStream schema (fuel + 1) depth t
        (writeTagToArray (makeTag number value.wireType) ++ (value.write ++ s)) =
      (.unknown number value (mergePartialFromCodedStream schema fuel depth t s).1,
        (mergePartialFromCodedStream schema fuel depth t s).2) := by
  rw [merge_tag legal.nonzero, mergeField_uninterpreted legal.small value.wireType_ne unknown, skipField_unknown legal short]
  rfl

/-- A group is kept up to the tag that ends it. -/
theorem merge_group {fuel depth : ℕ} {t : τ} {number : ℕ} {value : Fields} (legal : number < 2 ^ 29)
    (unknown : schema.Uninterpreted t number .startGroup) (shallow : depth + 1 ≤ recursionLimit)
    (skipped : value.Skipped (depth + 1)) (short : (serializeWithCachedSizesToArray value).length < 2 ^ 31)
    (s : List UInt8) :
    mergePartialFromCodedStream schema (fuel + 1) depth t (writeTagToArray (makeTag number .startGroup) ++
        (serializeWithCachedSizesToArray value ++ (writeTagToArray (makeTag number .endGroup) ++ s))) =
      (.group number value (mergePartialFromCodedStream schema fuel depth t s).1,
        (mergePartialFromCodedStream schema fuel depth t s).2) := by
  rw [merge_tag (legal_group legal (by decide)).nonzero, mergeField_uninterpreted legal (by decide) unknown,
    skipField_group legal shallow, skipMessage_write skipped legal short (by rw [List.length_append]; omega)]
  simp only [endGroup, if_true]
  rfl

/-- What the writer puts out for well-typed fields is parsed back. -/
theorem merge_serialize {fields : Fields} {fuel depth : ℕ} {t : τ} (typed : fields.Typed schema depth t)
    (short : (serializeWithCachedSizesToArray fields).length < 2 ^ 31)
    (enough : (serializeWithCachedSizesToArray fields).length < fuel) :
    mergePartialFromCodedStream schema fuel depth t (serializeWithCachedSizesToArray fields) = (fields, .ok ()) := by
  induction fields generalizing fuel depth t with
  | nil =>
    obtain ⟨fuel, rfl⟩ : ∃ n, fuel = n + 1 := ⟨fuel - 1, by omega⟩
    rfl
  | scalar number value rest ih =>
    obtain ⟨fuel, rfl⟩ : ∃ n, fuel = n + 1 := ⟨fuel - 1, by omega⟩
    obtain ⟨⟨repeated, known⟩, typed⟩ := typed
    have tag := length_tag_pos (makeTag number value.kind.wireType)
    rw [serializeWithCachedSizesToArray, List.length_append, List.length_append] at short enough
    rw [serializeWithCachedSizesToArray, merge_scalar known (by omega), ih typed (by omega) (by omega)]
  | message number value rest ihValue ihRest =>
    obtain ⟨fuel, rfl⟩ : ∃ n, fuel = n + 1 := ⟨fuel - 1, by omega⟩
    obtain ⟨⟨repeated, t', known, shallow, typedValue⟩, typed⟩ := typed
    have tag := length_tag_pos (makeTag number .lengthDelimited)
    rw [serializeWithCachedSizesToArray, List.length_append, List.length_append, List.length_append] at short enough
    rw [serializeWithCachedSizesToArray,
      merge_message known shallow (by omega) (ihValue typedValue (by omega) (by omega)),
      ihRest typed (by omega) (by omega)]
  | touched => exact typed.elim
  | unknown number value rest ih =>
    obtain ⟨fuel, rfl⟩ : ∃ n, fuel = n + 1 := ⟨fuel - 1, by omega⟩
    obtain ⟨⟨legal, unknown⟩, typed⟩ := typed
    have tag := length_tag_pos (makeTag number value.wireType)
    rw [serializeWithCachedSizesToArray, List.length_append, List.length_append] at short enough
    rw [serializeWithCachedSizesToArray, merge_unknown legal unknown (by omega), ih typed (by omega) (by omega)]
  | group number value rest _ ih =>
    obtain ⟨fuel, rfl⟩ : ∃ n, fuel = n + 1 := ⟨fuel - 1, by omega⟩
    obtain ⟨⟨legal, unknown, shallow, skipped⟩, typed⟩ := typed
    have tag := length_tag_pos (makeTag number .startGroup)
    rw [serializeWithCachedSizesToArray, List.length_append, List.length_append, List.length_append] at short enough
    rw [serializeWithCachedSizesToArray, merge_group legal unknown shallow skipped (by omega),
      ih typed (by omega) (by omega)]

end
/-! ## The parser -/

/-- A message that the schema knows, within the limit. -/
structure Message {τ : Type} (schema : Schema τ) (t : τ) where
  fields : Fields
  typed : fields.Typed schema 0 t
  small : byteSize fields ≤ kDefaultTotalBytesLimit

theorem length_small {fields : Fields} (small : byteSize fields ≤ kDefaultTotalBytesLimit) :
    (serializeWithCachedSizesToArray fields).length < 2 ^ 31 := by
  rw [byteSize_eq, kDefaultTotalBytesLimit] at small
  omega

section
variable {τ : Type} {schema : Schema τ} {t : τ}

end

end SteamworksService.WireFormat
