import SteamworksService.AnyBytes
import Mathlib.Data.List.Dedup
import Mathlib.Data.List.Sort

/-!
# Message objects

What a message object holds of the fields that are read into it, in the order in
which the generated code writes them: of an optional field the value that was set
last, of an optional message everything that was merged into it, of a repeated
field every value, and behind them the fields that the schema does not know.
Accepted bytes leave an object that is parsed back (`parseFromArray_canonical`).
-/
namespace SteamworksService.MessageObjects
open CodedStream WireFormat AnyBytes

/-! ## What was set -/

/-- The values of a repeated field. -/
def scalarsAt (number : ℕ) : Fields → List Scalar
  | .nil => []
  | .scalar n value rest => if n = number then value :: scalarsAt number rest else scalarsAt number rest
  | .message _ _ rest | .touched _ rest | .unknown _ _ rest | .group _ _ rest => scalarsAt number rest

/-- An optional field that had a value before. -/
def setScalar (number : ℕ) : Option Scalar → Fields → Option Scalar
  | before, .nil => before
  | before, .scalar n value rest => setScalar number (if n = number then some value else before) rest
  -- `mutable_` sets the field, and a string that is new is empty
  | before, .touched n rest => setScalar number (if n = number then some (before.getD (.string [])) else before) rest
  | before, .message _ _ rest | before, .unknown _ _ rest | before, .group _ _ rest => setScalar number before rest

/-- The value of an optional field, if it is set. -/
def scalarAt (number : ℕ) (fs : Fields) : Option Scalar := setScalar number none fs

/-- The messages that were read for a field. -/
def messagesAt (number : ℕ) : Fields → List Fields
  | .nil => []
  | .message n value rest => if n = number then value :: messagesAt number rest else messagesAt number rest
  | .scalar _ _ rest | .touched _ rest | .unknown _ _ rest | .group _ _ rest => messagesAt number rest

/-- `unknown_fields()`. -/
def unknownFields : Fields → Fields
  | .nil => .nil
  | .unknown number value rest => .unknown number value (unknownFields rest)
  | .group number value rest => .group number value (unknownFields rest)
  | .scalar _ _ rest | .message _ _ rest | .touched _ rest => unknownFields rest

/-! ## Objects -/

def scalarsOf (repeated : Bool) (number : ℕ) (fs : Fields) : List Scalar :=
  if repeated then scalarsAt number fs else (scalarAt number fs).toList

/-- Each message of a repeated field is one of its own, and those of an optional
    field are merged. -/
def messagesOf (repeated : Bool) (number : ℕ) (fs : Fields) : List Fields :=
  let values := messagesAt number fs
  if repeated = true ∨ values = [] then values else [values.foldr Fields.append .nil]

def scalarFields (number : ℕ) (values : List Scalar) : Fields := values.foldr (Fields.scalar number) .nil
def messageFields (number : ℕ) (values : List Fields) : Fields := values.foldr (Fields.message number) .nil

section
variable {τ : Type} (schema : Schema τ)

/-- `SortFieldsByNumber`. -/
def sortFieldsByNumber (t : τ) : List (FieldDescriptor τ) :=
  (((schema.fields t).map FieldDescriptor.number).dedup.insertionSort (· ≤ ·)).filterMap (schema.field t)

/-- What an object holds under one field. -/
def heldField (object : τ → Fields → Fields) (fs : Fields) (d : FieldDescriptor τ) : Fields :=
  match d.type with
  | .scalar _ => scalarFields d.number (scalarsOf d.repeated d.number fs)
  | .message t => messageFields d.number ((messagesOf d.repeated d.number fs).map (object t))

/-- The object, down to some level of messages in messages. -/
def objectTo : ℕ → τ → Fields → Fields
  | 0, _, _ => .nil
  | levels + 1, t, fs =>
    ((sortFieldsByNumber schema t).map (heldField (objectTo levels) fs)).foldr Fields.append (unknownFields fs)

/-- A parser goes down to the recursion limit. -/
def object (t : τ) (fs : Fields) : Fields := objectTo schema (recursionLimit + 1) t fs

end

/-! ## The fields of one number -/

/-- The fields of one number that the schema knows. -/
def only (number : ℕ) : Fields → Fields
  | .nil => .nil
  | .scalar n value rest => if n = number then .scalar n value (only number rest) else only number rest
  | .message n value rest => if n = number then .message n value (only number rest) else only number rest
  | .touched n rest => if n = number then .touched n (only number rest) else only number rest
  | .unknown _ _ rest | .group _ _ rest => only number rest

theorem scalarsAt_only (number : ℕ) (fs : Fields) : scalarsAt number (only number fs) = scalarsAt number fs := by
  induction fs with
  | nil => rfl
  | scalar n value rest ih | message n value rest _ ih | touched n rest ih =>
    by_cases same : n = number <;> simp [only, scalarsAt, same, ih]
  | unknown n value rest ih | group n value rest _ ih => exact ih

theorem setScalar_only (number : ℕ) (before : Option Scalar) (fs : Fields) :
    setScalar number before (only number fs) = setScalar number before fs := by
  induction fs generalizing before with
  | nil => rfl
  | scalar n value rest ih | message n value rest _ ih | touched n rest ih =>
    by_cases same : n = number <;> simp [only, setScalar, same, ih]
  | unknown n value rest ih | group n value rest _ ih => exact ih before

theorem messagesAt_only (number : ℕ) (fs : Fields) : messagesAt number (only number fs) = messagesAt number fs := by
  induction fs with
  | nil => rfl
  | scalar n value rest ih | message n value rest _ ih | touched n rest ih =>
    by_cases same : n = number <;> simp [only, messagesAt, same, ih]
  | unknown n value rest ih | group n value rest _ ih => exact ih

theorem scalarAt_only (number : ℕ) (fs : Fields) : scalarAt number (only number fs) = scalarAt number fs :=
  setScalar_only number none fs

theorem only_append (number : ℕ) (fs gs : Fields) :
    only number (fs.append gs) = (only number fs).append (only number gs) := by
  induction fs with
  | nil => rfl
  | scalar n value rest ih | message n value rest _ ih | touched n rest ih =>
    by_cases same : n = number <;> simp [only, Fields.append, same, ih]
  | unknown n value rest ih | group n value rest _ ih => exact ih

theorem only_unknownFields (number : ℕ) (fs : Fields) : only number (unknownFields fs) = .nil := by
  induction fs with
  | nil => rfl
  | scalar n value rest ih | message n value rest _ ih | touched n rest ih => exact ih
  | unknown n value rest ih | group n value rest _ ih => exact ih

theorem unknownFields_append (fs gs : Fields) :
    unknownFields (fs.append gs) = (unknownFields fs).append (unknownFields gs) := by
  induction fs with
  | nil => rfl
  | scalar n value rest ih | message n value rest _ ih | touched n rest ih => exact ih
  | unknown n value rest ih | group n value rest _ ih => simp [unknownFields, Fields.append, ih]

theorem unknownFields_unknownFields (fs : Fields) : unknownFields (unknownFields fs) = unknownFields fs := by
  induction fs with
  | nil => rfl
  | scalar n value rest ih | message n value rest _ ih | touched n rest ih => exact ih
  | unknown n value rest ih | group n value rest _ ih => simp [unknownFields, ih]

theorem scalarsAt_append (number : ℕ) (fs gs : Fields) :
    scalarsAt number (fs.append gs) = scalarsAt number fs ++ scalarsAt number gs := by
  induction fs with
  | nil => rfl
  | scalar n value rest ih =>
    by_cases same : n = number <;> simp [Fields.append, scalarsAt, same, ih]
  | message n value rest _ ih | touched n rest ih | unknown n value rest ih | group n value rest _ ih => exact ih

theorem setScalar_append (number : ℕ) (before : Option Scalar) (fs gs : Fields) :
    setScalar number before (fs.append gs) = setScalar number (setScalar number before fs) gs := by
  induction fs generalizing before with
  | nil => rfl
  | scalar n value rest ih | touched n rest ih => exact ih _
  | message n value rest _ ih | unknown n value rest ih | group n value rest _ ih => exact ih before

theorem messagesAt_append (number : ℕ) (fs gs : Fields) :
    messagesAt number (fs.append gs) = messagesAt number fs ++ messagesAt number gs := by
  induction fs with
  | nil => rfl
  | message n value rest _ ih =>
    by_cases same : n = number <;> simp [Fields.append, messagesAt, same, ih]
  | scalar n value rest ih | touched n rest ih | unknown n value rest ih | group n value rest _ ih => exact ih

theorem append_assoc (fs gs hs : Fields) : (fs.append gs).append hs = fs.append (gs.append hs) := by
  induction fs with
  | nil => rfl
  | scalar n value rest ih | message n value rest _ ih | touched n rest ih | unknown n value rest ih
  | group n value rest _ ih => simp [Fields.append, ih]

theorem append_nil (fs : Fields) : fs.append .nil = fs := by
  induction fs with
  | nil => rfl
  | scalar n value rest ih | message n value rest _ ih | touched n rest ih | unknown n value rest ih
  | group n value rest _ ih => simp [Fields.append, ih]

section
variable {number : ℕ}

theorem only_scalarFields (n : ℕ) (values : List Scalar) :
    only number (scalarFields n values) = if n = number then scalarFields n values else .nil := by
  induction values with
  | nil => simp [scalarFields, only]
  | cons value values ih =>
    rw [scalarFields, List.foldr_cons, ← scalarFields, only, ih]
    split_ifs <;> rfl

theorem only_messageFields (n : ℕ) (values : List Fields) :
    only number (messageFields n values) = if n = number then messageFields n values else .nil := by
  induction values with
  | nil => simp [messageFields, only]
  | cons value values ih =>
    rw [messageFields, List.foldr_cons, ← messageFields, only, ih]
    split_ifs <;> rfl

theorem unknownFields_scalarFields (values : List Scalar) : unknownFields (scalarFields number values) = .nil := by
  induction values with
  | nil => rfl
  | cons value values ih => exact ih

theorem unknownFields_messageFields (values : List Fields) : unknownFields (messageFields number values) = .nil := by
  induction values with
  | nil => rfl
  | cons value values ih => exact ih

theorem scalarsAt_scalarFields (values : List Scalar) : scalarsAt number (scalarFields number values) = values := by
  induction values with
  | nil => rfl
  | cons value values ih =>
    rw [scalarFields, List.foldr_cons, ← scalarFields, scalarsAt, if_pos rfl, ih]

theorem messagesAt_messageFields (values : List Fields) : messagesAt number (messageFields number values) = values := by
  induction values with
  | nil => rfl
  | cons value values ih =>
    rw [messageFields, List.foldr_cons, ← messageFields, messagesAt, if_pos rfl, ih]

theorem concat_append (values values' : List Fields) : (values ++ values').foldr Fields.append .nil =
    (values.foldr Fields.append .nil).append (values'.foldr Fields.append .nil) := by
  induction values with
  | nil => rfl
  | cons value values ih => rw [List.cons_append, List.foldr_cons, List.foldr_cons, ih, append_assoc]

/-- What is read later sets the value that is held, or adds to the values. -/
theorem scalarsOf_append (repeated : Bool) (fs gs : Fields) :
    scalarsOf repeated number ((scalarFields number (scalarsOf repeated number fs)).append gs) =
      scalarsOf repeated number (fs.append gs) := by
  cases repeated with
  | true =>
    simp only [scalarsOf, if_true, scalarsAt_append]
    rw [scalarsAt_scalarFields]
  | false =>
    have value : scalarAt number (scalarFields number (scalarAt number fs).toList) = scalarAt number fs := by
      cases scalarAt number fs with
      | none => rfl
      | some value => simp [scalarFields, scalarAt, setScalar]
    rw [scalarAt, scalarAt] at value
    simp only [scalarsOf, Bool.false_eq_true, if_false, scalarAt, setScalar_append]
    rw [value]

/-- What is read later is merged into the message that is held, or is one more message. -/
theorem messagesOf_append {f : Fields → Fields} (merges : ∀ fs gs, f ((f fs).append gs) = f (fs.append gs))
    (repeated : Bool) (fs gs : Fields) :
    (messagesOf repeated number ((messageFields number ((messagesOf repeated number fs).map f)).append gs)).map f =
      (messagesOf repeated number (fs.append gs)).map f := by
  cases repeated with
  | true =>
    simp only [messagesOf, true_or, if_true, messagesAt_append]
    rw [messagesAt_messageFields, List.map_append, List.map_append, List.map_map]
    congr 1
    apply List.map_congr_left
    intro value _
    have again := merges value .nil
    rwa [append_nil, append_nil] at again
  | false =>
    simp only [messagesOf, Bool.false_eq_true, false_or, messagesAt_append]
    by_cases none : messagesAt number fs = []
    · simp [none, messageFields, messagesAt]
    · have joined := concat_append (messagesAt number fs) (messagesAt number gs)
      rw [List.foldr_append] at joined
      rw [if_neg none, messagesAt_messageFields]
      simp [none, merges, joined]

end

section
variable {τ : Type} {object : τ → Fields → Fields} {fs : Fields}

theorem heldField_only (d : FieldDescriptor τ) : heldField object (only d.number fs) d = heldField object fs d := by
  simp only [heldField, scalarsOf, messagesOf, scalarsAt_only, scalarAt_only, messagesAt_only]

theorem only_heldField (number : ℕ) (d : FieldDescriptor τ) :
    only number (heldField object fs d) = if d.number = number then heldField object fs d else .nil := by
  rw [heldField]
  cases d.type with
  | scalar kind => exact only_scalarFields _ _
  | message t => exact only_messageFields _ _

theorem unknownFields_heldField (d : FieldDescriptor τ) : unknownFields (heldField object fs d) = .nil := by
  rw [heldField]
  cases d.type with
  | scalar kind => exact unknownFields_scalarFields _
  | message t => exact unknownFields_messageFields _

theorem heldField_append (merges : ∀ t fs gs, object t ((object t fs).append gs) = object t (fs.append gs)) (gs : Fields)
    (d : FieldDescriptor τ) : heldField object ((heldField object fs d).append gs) d = heldField object (fs.append gs) d := by
  obtain ⟨repeated, type, number⟩ := d
  cases type with
  | scalar kind => exact congrArg (scalarFields number) (scalarsOf_append repeated fs gs)
  | message t => exact congrArg (messageFields number) (messagesOf_append (merges t) repeated fs gs)

end

/-! ## What an object holds -/

section
variable {τ : Type} {schema : Schema τ} {t : τ}

theorem mem_sortFieldsByNumber {d : FieldDescriptor τ} :
    d ∈ sortFieldsByNumber schema t ↔ schema.field t d.number = some d := by
  rw [sortFieldsByNumber, List.mem_filterMap]
  constructor
  · rintro ⟨number, _, known⟩
    rwa [(Schema.field_number known).1]
  · intro known
    refine ⟨d.number, ?_, known⟩
    rw [List.mem_insertionSort, List.mem_dedup]
    exact List.mem_map_of_mem (List.mem_of_find?_eq_some known)

/-- Each number stands for one field, and they are in order. -/
theorem sortFieldsByNumber_lt : (sortFieldsByNumber schema t).Pairwise (fun d e => d.number < e.number) := by
  have sorted := List.pairwise_insertionSort (· ≤ ·) ((schema.fields t).map FieldDescriptor.number).dedup
  have distinct : (((schema.fields t).map FieldDescriptor.number).dedup.insertionSort (· ≤ ·)).Nodup :=
    (List.perm_insertionSort _ _).nodup_iff.mpr (List.nodup_dedup _)
  apply (sorted.and distinct).filterMap
  intro m n before d first e second
  rw [(Schema.field_number first).1, (Schema.field_number second).1]
  exact lt_of_le_of_ne before.1 before.2

variable {held : FieldDescriptor τ → Fields} {number : ℕ} {behind : Fields}

theorem only_none (none : only number behind = .nil) {ds : List (FieldDescriptor τ)}
    (owned : ∀ d ∈ ds, only number (held d) = if d.number = number then held d else .nil)
    (absent : ∀ d ∈ ds, d.number ≠ number) : only number ((ds.map held).foldr Fields.append behind) = .nil := by
  induction ds with
  | nil => exact none
  | cons d ds ih =>
    rw [List.map_cons, List.foldr_cons, only_append, owned d (by simp), if_neg (absent d (by simp)),
      ih (fun e member => owned e (by simp [member])) (fun e member => absent e (by simp [member]))]
    rfl

/-- An object holds under a number what it holds under its field. -/
theorem only_of_mem (none : only number behind = .nil) {ds : List (FieldDescriptor τ)}
    (owned : ∀ d ∈ ds, only number (held d) = if d.number = number then held d else .nil)
    (sorted : ds.Pairwise (fun d e => d.number < e.number)) {d : FieldDescriptor τ} (member : d ∈ ds)
    (own : d.number = number) : only number ((ds.map held).foldr Fields.append behind) = held d := by
  induction ds with
  | nil => cases member
  | cons e ds ih =>
    obtain ⟨first, sorted⟩ := List.pairwise_cons.mp sorted
    have others : ∀ f ∈ ds, only number (held f) = if f.number = number then held f else .nil :=
      fun f member => owned f (by simp [member])
    rw [List.map_cons, List.foldr_cons, only_append, owned e (by simp)]
    rcases List.mem_cons.mp member with rfl | later
    · rw [if_pos own, only_none none others, append_nil]
      intro f member same
      have before := first f member
      omega
    · have before := first d later
      rw [if_neg (by omega), ih others sorted later]
      rfl

theorem only_objectTo (levels : ℕ) (fs : Fields) {d : FieldDescriptor τ} (known : schema.field t d.number = some d) :
    only d.number (objectTo schema (levels + 1) t fs) = heldField (objectTo schema levels) fs d :=
  only_of_mem (only_unknownFields _ fs) (fun e _ => only_heldField _ e) sortFieldsByNumber_lt
    (mem_sortFieldsByNumber.mpr known) rfl

theorem unknownFields_objectTo (levels : ℕ) (fs : Fields) :
    unknownFields (objectTo schema (levels + 1) t fs) = unknownFields fs := by
  rw [objectTo]
  induction sortFieldsByNumber schema t with
  | nil => exact unknownFields_unknownFields fs
  | cons d ds ih =>
    rw [List.map_cons, List.foldr_cons, unknownFields_append, unknownFields_heldField, ih]
    rfl

/-- What is read into an object is merged with what it holds. -/
theorem objectTo_append (levels : ℕ) (t : τ) (fs gs : Fields) :
    objectTo schema levels t ((objectTo schema levels t fs).append gs) = objectTo schema levels t (fs.append gs) := by
  induction levels generalizing t fs gs with
  | zero => rfl
  | succ levels ih =>
    have same : ∀ d ∈ sortFieldsByNumber schema t,
        heldField (objectTo schema levels) ((objectTo schema (levels + 1) t fs).append gs) d =
          heldField (objectTo schema levels) (fs.append gs) d := by
      intro d member
      have own : only d.number (heldField (objectTo schema levels) fs d) = heldField (objectTo schema levels) fs d := by
        rw [only_heldField, if_pos rfl]
      rw [← heldField_only, only_append, only_objectTo levels fs (mem_sortFieldsByNumber.mp member), ← own,
        ← only_append, heldField_only]
      exact heldField_append ih gs d
    conv_lhs => rw [objectTo, unknownFields_append, unknownFields_objectTo, ← unknownFields_append,
      List.map_congr_left same]
    rw [objectTo]

/-- An object that is read off its own fields is the same object. -/
theorem objectTo_objectTo (levels : ℕ) (t : τ) (fs : Fields) :
    objectTo schema levels t (objectTo schema levels t fs) = objectTo schema levels t fs := by
  have again := @objectTo_append τ schema levels t fs .nil
  rwa [append_nil, append_nil] at again

/-- An optional field of an object reads as the value that was set last. -/
theorem scalarAt_objectTo (levels : ℕ) (fs : Fields) {kind : Kind}
    (known : schema.field t number = some ⟨false, .scalar kind, number⟩) :
    scalarAt number (objectTo schema (levels + 1) t fs) = scalarAt number fs := by
  have held : only number (objectTo schema (levels + 1) t fs) = _ :=
    only_objectTo (d := ⟨false, .scalar kind, number⟩) levels fs known
  rw [← scalarAt_only, held]
  simp only [heldField, scalarsOf, Bool.false_eq_true, if_false]
  cases scalarAt number fs with
  | none => rfl
  | some value => simp [scalarFields, scalarAt, setScalar]

theorem messagesAt_objectTo (levels : ℕ) (fs : Fields) {t' : τ}
    (known : schema.field t number = some ⟨true, .message t', number⟩) :
    messagesAt number (objectTo schema (levels + 1) t fs) = (messagesAt number fs).map (objectTo schema levels t') := by
  have held : only number (objectTo schema (levels + 1) t fs) = _ :=
    only_objectTo (d := ⟨true, .message t', number⟩) levels fs known
  rw [← messagesAt_only, held]
  simp only [heldField, messagesOf, true_or, if_true]
  exact messagesAt_messageFields _

/-! ## Well-typed objects -/

section
variable {depth : ℕ}

theorem scalarFields_typed {values : List Scalar}
    (known : ∀ value ∈ values, ∃ repeated, schema.field t number = some ⟨repeated, .scalar value.kind, number⟩) :
    (scalarFields number values).Typed schema depth t := by
  induction values with
  | nil => trivial
  | cons value values ih => exact ⟨known value (by simp), ih (fun more member => known more (by simp [member]))⟩

theorem messageFields_typed {values : List Fields}
    (known : ∀ value ∈ values, ∃ repeated t', schema.field t number = some ⟨repeated, .message t', number⟩ ∧
      depth + 1 ≤ recursionLimit ∧ value.Typed schema (depth + 1) t') :
    (messageFields number values).Typed schema depth t := by
  induction values with
  | nil => trivial
  | cons value values ih => exact ⟨known value (by simp), ih (fun more member => known more (by simp [member]))⟩

theorem concat_typed {values : List Fields} (typed : ∀ value ∈ values, value.Typed schema depth t) :
    (values.foldr Fields.append .nil).Typed schema depth t := by
  induction values with
  | nil => trivial
  | cons value values ih =>
    exact typed_append (typed value (by simp)) (ih (fun more member => typed more (by simp [member])))

variable {fs : Fields}

theorem scalarsAt_typed (typed : fs.Typed schema depth t) :
    ∀ value ∈ scalarsAt number fs, ∃ repeated, schema.field t number = some ⟨repeated, .scalar value.kind, number⟩ := by
  induction fs with
  | nil => simp [scalarsAt]
  | scalar n own rest ih =>
    rw [scalarsAt]
    split_ifs with same
    · subst same
      rintro value (_ | ⟨_, member⟩)
      · exact typed.1
      · exact ih typed.2 value member
    · exact ih typed.2
  | touched n rest => exact typed.elim
  | message n own rest _ ih | unknown n own rest ih | group n own rest _ ih => exact ih typed.2

/-- Without an error an optional field has one of the values that were read for it. -/
theorem setScalar_typed (typed : fs.Typed schema depth t) (before : Option Scalar) :
    ∀ value ∈ setScalar number before fs, value ∈ before ∨ value ∈ scalarsAt number fs := by
  induction fs generalizing before with
  | nil => exact fun value set => .inl set
  | scalar n own rest ih =>
    intro value set
    rw [setScalar] at set
    rw [scalarsAt]
    split_ifs at set ⊢
    · rcases ih typed.2 _ value set with own | later
      · cases own
        exact .inr List.mem_cons_self
      · exact .inr (List.mem_cons_of_mem _ later)
    · exact ih typed.2 _ value set
  | touched n rest => exact typed.elim
  | message n own rest _ ih | unknown n own rest ih | group n own rest _ ih => exact ih typed.2 before

theorem scalarsOf_typed (typed : fs.Typed schema depth t) (repeated : Bool) :
    ∀ value ∈ scalarsOf repeated number fs, ∃ r, schema.field t number = some ⟨r, .scalar value.kind, number⟩ := by
  intro value member
  apply scalarsAt_typed typed
  cases repeated with
  | true => exact member
  | false =>
    have set : value ∈ scalarAt number fs := Option.mem_toList.mp member
    rcases setScalar_typed typed none value set with before | own
    · cases before
    · exact own

theorem messagesAt_typed (typed : fs.Typed schema depth t) {repeated : Bool} {t' : τ}
    (known : schema.field t number = some ⟨repeated, .message t', number⟩) :
    ∀ value ∈ messagesAt number fs, depth + 1 ≤ recursionLimit ∧ value.Typed schema (depth + 1) t' := by
  induction fs with
  | nil => simp [messagesAt]
  | message n own rest _ ih =>
    rw [messagesAt]
    split_ifs with same
    · subst same
      rintro value (_ | ⟨_, member⟩)
      · obtain ⟨⟨_, t'', known', shallow, inner⟩, _⟩ := typed
        rw [known] at known'
        cases known'
        exact ⟨shallow, inner⟩
      · exact ih typed.2 value member
    · exact ih typed.2
  | touched n rest => exact typed.elim
  | scalar n own rest ih | unknown n own rest ih | group n own rest _ ih => exact ih typed.2

theorem messagesOf_typed (typed : fs.Typed schema depth t) {repeated : Bool} {t' : τ}
    (known : schema.field t number = some ⟨repeated, .message t', number⟩) :
    ∀ value ∈ messagesOf repeated number fs, depth + 1 ≤ recursionLimit ∧ value.Typed schema (depth + 1) t' := by
  have each := messagesAt_typed typed known
  rw [messagesOf]
  split_ifs with none
  · exact each
  · intro value member
    cases List.mem_singleton.mp member
    obtain ⟨first, found⟩ := List.exists_mem_of_ne_nil _ (not_or.mp none).2
    exact ⟨(each first found).1, concat_typed (fun value member => (each value member).2)⟩

theorem unknownFields_typed (typed : fs.Typed schema depth t) : (unknownFields fs).Typed schema depth t := by
  induction fs with
  | nil => trivial
  | scalar n own rest ih | message n own rest _ ih => exact ih typed.2
  | touched n rest => exact typed.elim
  | unknown n own rest ih | group n own rest _ ih => exact ⟨typed.1, ih typed.2⟩

theorem heldField_typed {object : τ → Fields → Fields} (typed : fs.Typed schema depth t)
    (inner : ∀ t' value, value.Typed schema (depth + 1) t' → (object t' value).Typed schema (depth + 1) t')
    {d : FieldDescriptor τ} (known : schema.field t d.number = some d) :
    (heldField object fs d).Typed schema depth t := by
  obtain ⟨repeated, type, number⟩ := d
  cases type with
  | scalar kind => exact scalarFields_typed (scalarsOf_typed typed repeated)
  | message t' =>
    apply messageFields_typed
    intro value member
    obtain ⟨own, inside, rfl⟩ := List.mem_map.mp member
    obtain ⟨shallow, typed⟩ := messagesOf_typed typed known own inside
    exact ⟨repeated, t', known, shallow, inner t' own typed⟩

/-- The fields of an object are well typed, as those are that were read. -/
theorem objectTo_typed (levels : ℕ) (typed : fs.Typed schema depth t) :
    (objectTo schema levels t fs).Typed schema depth t := by
  induction levels generalizing depth t fs with
  | zero => trivial
  | succ levels ih =>
    have each : ∀ d ∈ sortFieldsByNumber schema t, (heldField (objectTo schema levels) fs d).Typed schema depth t :=
      fun d member => heldField_typed typed (fun _ _ inner => ih inner) (mem_sortFieldsByNumber.mp member)
    rw [objectTo]
    generalize sortFieldsByNumber schema t = ds at each
    induction ds with
    | nil => exact unknownFields_typed typed
    | cons d ds more =>
      exact typed_append (each d (by simp)) (more (fun e member => each e (by simp [member])))

/-- No message is nested below the recursion limit, so more levels hold nothing more. -/
theorem objectTo_levels {levels levels' : ℕ} (typed : fs.Typed schema depth t) (shallow : depth ≤ recursionLimit)
    (enough : recursionLimit < depth + levels) (enough' : recursionLimit < depth + levels') :
    objectTo schema levels t fs = objectTo schema levels' t fs := by
  induction levels generalizing levels' depth t fs with
  | zero => omega
  | succ levels ih =>
    obtain ⟨levels', rfl⟩ : ∃ n, levels' = n + 1 := ⟨levels' - 1, by omega⟩
    have same : ∀ d ∈ sortFieldsByNumber schema t,
        heldField (objectTo schema levels) fs d = heldField (objectTo schema levels') fs d := by
      intro d member
      have known := mem_sortFieldsByNumber.mp member
      obtain ⟨repeated, type, number⟩ := d
      cases type with
      | scalar kind => rfl
      | message t' =>
        simp only [heldField]
        congr 1
        apply List.map_congr_left
        intro value inside
        obtain ⟨below, inner⟩ := messagesOf_typed typed known value inside
        exact ih inner below (by omega) (by omega)
    rw [objectTo, objectTo, List.map_congr_left same]

end

end

/-! ## Accepted bytes -/

section
variable {τ : Type} (schema : Schema τ) (t : τ)

/-- The object of some fields. Its own fields are well typed and are what it holds,
    and what is read into it is merged. Its bytes, if they are not too many, are
    parsed as the object again. -/
structure ObjectOf (fs held : Fields) : Prop where
  typed : held.Typed schema 0 t
  own : object schema t held = held
  merges : ∀ more, object schema t (held.append more) = object schema t (fs.append more)
  levels : ∀ levels, recursionLimit < levels → objectTo schema levels t fs = held
  parsed : byteSize held ≤ kDefaultTotalBytesLimit →
    parseFromArray schema t (serializeWithCachedSizesToArray held) = (held, .ok ())

/-- Accepted bytes leave an object, whose own bytes may be others. -/
theorem parseFromArray_canonical (data : List UInt8) (accepted : (parseFromArray schema t data).2 = .ok ()) :
    ObjectOf schema t (parseFromArray schema t data).1 (object schema t (parseFromArray schema t data).1) := by
  have typed : (parseFromArray schema t data).1.Typed schema 0 t := merge_typed accepted
  have heldTyped := objectTo_typed (recursionLimit + 1) typed
  refine ⟨heldTyped, objectTo_objectTo _ t _, objectTo_append _ t _, ?_, ?_⟩
  · intro levels enough
    exact objectTo_levels typed (Nat.zero_le _) (by omega) (by omega)
  · intro small
    exact merge_serialize heldTyped (length_small small) (Nat.lt_succ_self _)

end

/-- Messages of one type, with a text, other messages of the type, and one more. -/
def sampleSchema : Schema Unit :=
  ⟨fun _ => [⟨false, .scalar .string, 1⟩, ⟨true, .message (), 2⟩, ⟨false, .message (), 3⟩], fun _ => by decide⟩

/-- A field that is not known, a message, a text, and the message again, under a
    tag with a byte too many. -/
def sampleBytes : List UInt8 := [40, 7, 26, 3, 10, 1, 65, 10, 1, 66, 0x9A, 0, 3, 10, 1, 67]

theorem sampleBytes_canonical : ObjectOf sampleSchema () (parseFromArray sampleSchema () sampleBytes).1
    (object sampleSchema () (parseFromArray sampleSchema () sampleBytes).1) :=
  parseFromArray_canonical sampleSchema () sampleBytes (by decide)

example : object sampleSchema () (parseFromArray sampleSchema () sampleBytes).1 =
    .scalar 1 (.string [66]) (.message 3 (.scalar 1 (.string [67]) .nil) (.unknown 5 (.varint 7) .nil)) := by
  decide +kernel

end SteamworksService.MessageObjects
