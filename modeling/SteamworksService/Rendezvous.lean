import SteamworksService.Runs
import Mathlib.Data.List.Nodup
import Mathlib.Logic.Function.Basic
import Mathlib.Order.Nat

/-!
# Rendezvous

Two parties that open the two ends of some channels, each in its own order. An
open returns once the other party has opened the channel too, or has called for
it. The parties get through if and only if their orders are the same.
-/
namespace SteamworksService.Rendezvous
open Runs

inductive Side
  | left
  | right
  deriving DecidableEq, Repr

def Side.other : Side → Side
  | .left => .right
  | .right => .left

/-- How many opens a party has called, and how many of them have returned. -/
structure Progress where
  called : ℕ
  opened : ℕ
  deriving DecidableEq, Repr

abbrev State := Side → Progress

inductive Label
  | call (p : Side)
  | meet (p : Side)
  deriving DecidableEq, Repr

def State.initial : State := fun _ => ⟨0, 0⟩

section
variable {α : Type*} [DecidableEq α] (order : Side → List α)

def next (s : State) : Label → Option State
  | .call p =>
    if (s p).called = (s p).opened ∧ (s p).opened < (order p).length then
      some (Function.update s p ⟨(s p).called + 1, (s p).opened⟩)
    else none
  | .meet p =>
    match (order p)[(s p).opened]? with
    | some x =>
      if (s p).called = (s p).opened + 1 ∧ x ∈ (order p.other).take (s p.other).called then
        some (Function.update s p ⟨(s p).called, (s p).opened + 1⟩)
      else none
    | none => none

def Finished (s : State) : Prop := ∀ p, (s p).opened = (order p).length

/-! ## Steps -/

/-- At most one open is under way. -/
def Steady (s : State) : Prop :=
  ∀ p, (s p).opened ≤ (s p).called ∧ (s p).called ≤ (s p).opened + 1 ∧ (s p).called ≤ (order p).length

/-- What a step can do. -/
inductive Took (s : State) : Label → State → Prop
  | call {p : Side} (idle : (s p).called = (s p).opened) (more : (s p).opened < (order p).length) :
      Took s (.call p) (Function.update s p ⟨(s p).called + 1, (s p).opened⟩)
  | meet {p : Side} {x : α} (channel : (order p)[(s p).opened]? = some x) (waits : (s p).called = (s p).opened + 1)
      (there : x ∈ (order p.other).take (s p.other).called) :
      Took s (.meet p) (Function.update s p ⟨(s p).called, (s p).opened + 1⟩)

variable {order} {s t : State} {l : Label}

theorem next_took (taken : next order s l = some t) : Took order s l t := by
  cases l with
  | call p =>
    simp only [next, Option.ite_none_right_eq_some, Option.some.injEq] at taken
    obtain ⟨⟨idle, more⟩, rfl⟩ := taken
    exact .call idle more
  | meet p =>
    simp only [next] at taken
    split at taken
    · next channel =>
      simp only [Option.ite_none_right_eq_some, Option.some.injEq] at taken
      obtain ⟨⟨waits, there⟩, rfl⟩ := taken
      exact .meet channel waits there
    · cases taken

omit [DecidableEq α] in
theorem steady_initial : Steady order State.initial := fun _ => ⟨le_rfl, Nat.zero_le _, Nat.zero_le _⟩

omit [DecidableEq α] in
/-- A step concerns one party. -/
theorem Steady.update {p : Side} {progress : Progress} (steady : Steady order s)
    (own : progress.opened ≤ progress.called ∧ progress.called ≤ progress.opened + 1 ∧
      progress.called ≤ (order p).length) : Steady order (Function.update s p progress) := by
  intro q
  by_cases same : q = p
  · subst same
    rw [Function.update_self]
    exact own
  · rw [Function.update_of_ne same]
    exact steady q

theorem steady_step (steady : Steady order s) (taken : next order s l = some t) : Steady order t := by
  cases next_took taken with
  | @call p idle more => exact steady.update ⟨by simp only; omega, by simp only; omega, by simp only; omega⟩
  | @meet p x channel waits there =>
    have bound := (steady p).2.2
    exact steady.update ⟨by simp only; omega, by simp only; omega, bound⟩

/-- The calls and returns that are left. -/
def left (order : Side → List α) (s : State) : ℕ :=
  2 * (order .left).length - (s .left).called - (s .left).opened +
    (2 * (order .right).length - (s .right).called - (s .right).opened)

theorem left_step (steady : Steady order s) (taken : next order s l = some t) : left order t < left order s := by
  have onLeft := steady .left
  have onRight := steady .right
  cases next_took taken with
  | @call p idle more =>
    cases p <;> simp [left] <;> omega
  | @meet p x channel waits there =>
    cases p <;> simp [left] <;> omega

/-! ## The same order -/

omit [DecidableEq α] in
theorem order_other (same : order .left = order .right) (p : Side) : order p.other = order p := by
  cases p with
  | left => exact same.symm
  | right => exact same

theorem meet_enabled (same : order .left = order .right) (steady : Steady order s) {p : Side}
    (waits : (s p).called = (s p).opened + 1) (ahead : (s p).opened < (s p.other).called) :
    ∃ l t, next order s l = some t := by
  have inside : (s p).opened < (order p).length := by
    have bound := (steady p).2.2
    omega
  have there : (order p)[(s p).opened] ∈ (order p.other).take (s p.other).called := by
    rw [order_other same, List.mem_take_iff_getElem]
    exact ⟨(s p).opened, lt_min ahead inside, rfl⟩
  refine ⟨.meet p, Function.update s p ⟨(s p).called, (s p).opened + 1⟩, ?_⟩
  simp only [next, List.getElem?_eq_getElem inside, waits, there, and_self, if_true]

theorem call_enabled {p : Side} (idle : (s p).called = (s p).opened) (more : (s p).opened < (order p).length) :
    ∃ l t, next order s l = some t :=
  ⟨.call p, Function.update s p ⟨(s p).called + 1, (s p).opened⟩, by simp only [next, idle, more, and_self, if_true]⟩

/-- With the same order, a party that is not through is not stuck. -/
theorem goes_on (same : order .left = order .right) (steady : Steady order s) {p : Side}
    (unfinished : (s p).opened < (order p).length) : ∃ l t, next order s l = some t := by
  have lengths := congrArg List.length (order_other same p)
  have own := steady p
  have others := steady p.other
  have back : p.other.other = p := by cases p <;> rfl
  by_cases idle : (s p).called = (s p).opened
  · exact call_enabled idle unfinished
  · by_cases ahead : (s p).opened < (s p.other).called
    · exact meet_enabled same steady (by omega) ahead
    · by_cases idle' : (s p.other).called = (s p.other).opened
      · exact call_enabled idle' (by omega)
      · -- the other party waits for a channel that this one has opened
        exact meet_enabled same steady (p := p.other) (by omega) (by rw [back]; omega)

theorem finishes (same : order .left = order .right) (steady : Steady order s) :
    ∃ labels t, run (next order) s labels = some t ∧ Finished order t := by
  induction more : left order s using Nat.strong_induction_on generalizing s with
  | _ n ih =>
    by_cases through : ∃ p, (s p).opened < (order p).length
    · obtain ⟨p, unfinished⟩ := through
      obtain ⟨l, m, taken⟩ := goes_on same steady unfinished
      obtain ⟨labels, t, ran, finished⟩ :=
        ih (left order m) (by rw [← more]; exact left_step steady taken) (steady_step steady taken) rfl
      exact ⟨l :: labels, t, run_cons.mpr ⟨m, taken, ran⟩, finished⟩
    · refine ⟨[], s, rfl, ?_⟩
      intro p
      have bound := steady p
      have passed : ¬ (s p).opened < (order p).length := fun unfinished => through ⟨p, unfinished⟩
      omega

/-! ## Different orders -/

/-- Neither party is past the first place where the orders differ. -/
def Before (k : ℕ) (s : State) : Prop := ∀ p, (s p).opened ≤ k ∧ (s p).called ≤ (s p).opened + 1

theorem before_step {k : ℕ} (distinct : ∀ p, (order p).Nodup)
    (agree : ∀ j < k, (order .left)[j]? = (order .right)[j]?) (differ : (order .left)[k]? ≠ (order .right)[k]?)
    (before : Before k s) (taken : next order s l = some t) : Before k t := by
  have agree' : ∀ p, ∀ j < k, (order p.other)[j]? = (order p)[j]? := by
    intro p j below
    cases p with
    | left => exact (agree j below).symm
    | right => exact agree j below
  have differ' : ∀ p, (order p.other)[k]? ≠ (order p)[k]? := by
    intro p
    cases p with
    | left => exact Ne.symm differ
    | right => exact differ
  have update : ∀ (p : Side) (progress : Progress), progress.opened ≤ k ∧ progress.called ≤ progress.opened + 1 →
      Before k (Function.update s p progress) := by
    intro p progress own q
    by_cases same : q = p
    · subst same
      rwa [Function.update_self]
    · rw [Function.update_of_ne same]
      exact before q
  cases next_took taken with
  | @call p idle more =>
    have bound := before p
    exact update p _ ⟨bound.1, by simp only; omega⟩
  | @meet p x channel waits there =>
    have bound := before p
    have others := before p.other
    refine update p _ ⟨?_, by simp only; omega⟩
    show (s p).opened + 1 ≤ k
    by_contra past
    have here : (s p).opened = k := by omega
    rw [here] at channel
    obtain ⟨j, below, found⟩ := List.mem_take_iff_getElem.mp there
    have found' : (order p.other)[j]? = some x := List.getElem?_eq_some_iff.mpr ⟨by omega, found⟩
    rcases Nat.lt_or_ge j k with earlier | last
    · -- the channel would be in the order twice
      rw [agree' p j earlier] at found'
      obtain ⟨inside, _⟩ := List.getElem?_eq_some_iff.mp found'
      have once : j = k := (List.getElem?_inj inside (distinct p)).mp (found'.trans channel.symm)
      omega
    · have same : j = k := by omega
      subst same
      exact differ' p (found'.trans channel.symm)

/-- The parties can get through if and only if they open the channels in the same
    order, and then they cannot get stuck (`goes_on`). -/
theorem finishes_iff (distinct : ∀ p, (order p).Nodup) :
    (∃ labels t, run (next order) State.initial labels = some t ∧ Finished order t) ↔ order .left = order .right := by
  constructor
  · rintro ⟨labels, t, ran, finished⟩
    by_contra different
    have mismatch : ∃ k : ℕ, (order .left)[k]? ≠ (order .right)[k]? := by
      by_contra equal
      exact different (List.ext_getElem? (fun k => not_not.mp (fun differ => equal ⟨k, differ⟩)))
    have agree : ∀ j < Nat.find mismatch, (order .left)[j]? = (order .right)[j]? :=
      fun j below => not_not.mp (Nat.find_min mismatch below)
    have start : Before (Nat.find mismatch) State.initial := fun _ => ⟨Nat.zero_le _, Nat.zero_le _⟩
    have before : Before (Nat.find mismatch) t := run_invariant (A := fun _ => True)
      (fun s l t before _ taken => before_step distinct agree (Nat.find_spec mismatch) before taken) start
      (fun _ _ => trivial) ran
    have short : ∀ p, (order p)[Nat.find mismatch]? = none := by
      intro p
      rw [List.getElem?_eq_none_iff, ← finished p]
      exact (before p).1
    exact Nat.find_spec mismatch ((short .left).trans (short .right).symm)
  · intro same
    exact finishes same steady_initial

end

end SteamworksService.Rendezvous
