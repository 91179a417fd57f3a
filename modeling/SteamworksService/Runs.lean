import Mathlib.Data.Nat.Notation
import Mathlib.Tactic.TypeStar

/-!
# Loops and runs

The induction rules for two shapes of repetition: a counter that runs down, and
a machine that takes labelled steps. For the machine there are three: an
invariant, a measure, and a simulation by a specification of what is seen.
-/
namespace SteamworksService.Runs

/-! ## Counters that run down -/

section
variable {σ : Type*}

/-- `for (i = n - 1; i >= 0; i--) body(i)`. -/
def countdown (body : ℕ → σ → σ) : ℕ → σ → σ
  | 0, s => s
  | n + 1, s => countdown body n (body n s)

/-- `P i` holds before the counter passes below `i`, so `P 0` holds after the loop. -/
theorem countdown_invariant {body : ℕ → σ → σ} {P : ℕ → σ → Prop} {n : ℕ} {s : σ} (start : P n s)
    (step : ∀ i < n, ∀ s, P (i + 1) s → P i (body i s)) : P 0 (countdown body n s) := by
  induction n generalizing s with
  | zero => exact start
  | succ n ih =>
    apply ih
    · exact step n (Nat.lt_succ_self n) s start
    · intro i below
      exact step i (Nat.lt_succ_of_lt below)

end

/-! ## Labelled steps -/

section
variable {State Label : Type*} (next : State → Label → Option State)

/-- The state after taking the given steps in order, if every one of them is enabled. -/
def run : State → List Label → Option State
  | s, [] => some s
  | s, l :: ls => (next s l).bind (fun t => run t ls)

variable {next}

theorem run_cons {s t : State} {l : Label} {ls : List Label} :
    run next s (l :: ls) = some t ↔ ∃ m, next s l = some m ∧ run next m ls = some t := by
  simp [run, Option.bind_eq_some_iff]

theorem run_append {s m t : State} {ls ms : List Label} (first : run next s ls = some m) (second : run next m ms = some t) :
    run next s (ls ++ ms) = some t := by
  induction ls generalizing s with
  | nil =>
    cases first
    exact second
  | cons l ls ih =>
    obtain ⟨n, taken, rest⟩ := run_cons.mp first
    exact run_cons.mpr ⟨n, taken, ih rest⟩

/-- What the initial state satisfies and every allowed step keeps holds after
    every run of allowed steps, those with labels in `A`. -/
theorem run_invariant {P : State → Prop} {A : Label → Prop}
    (step : ∀ s l t, P s → A l → next s l = some t → P t) {s t : State} {ls : List Label}
    (start : P s) (orderly : ∀ l ∈ ls, A l) (ran : run next s ls = some t) : P t := by
  induction ls generalizing s with
  | nil =>
    cases ran
    exact start
  | cons l ls ih =>
    obtain ⟨m, taken, rest⟩ := run_cons.mp ran
    have middle : P m := step s l m start (orderly l (by simp)) taken
    exact ih middle (fun k member => orderly k (by simp [member])) rest

/-- Where every allowed step lowers a measure by one if it is counted, and does
    not raise it otherwise, no more steps are counted than the measure allows. -/
theorem run_counted {P : State → Prop} {A : Label → Prop} {p : Label → Bool} {μ : State → ℕ}
    (step : ∀ s l t, P s → A l → next s l = some t → P t ∧ (p l).toNat + μ t ≤ μ s) {s t : State} {ls : List Label}
    (start : P s) (orderly : ∀ l ∈ ls, A l) (ran : run next s ls = some t) : P t ∧ ls.countP p + μ t ≤ μ s := by
  induction ls generalizing s with
  | nil =>
    cases ran
    exact ⟨start, by simp⟩
  | cons l ls ih =>
    obtain ⟨m, taken, rest⟩ := run_cons.mp ran
    obtain ⟨middle, lower⟩ := step s l m start (orderly l (by simp)) taken
    obtain ⟨last, bound⟩ := ih middle (fun k member => orderly k (by simp [member])) rest
    refine ⟨last, ?_⟩
    by_cases counted : p l = true
    · rw [List.countP_cons_of_pos counted]
      rw [counted, Bool.toNat_true] at lower
      omega
    · rw [List.countP_cons_of_neg counted]
      omega

/-- Where every allowed step lowers a measure, a run of allowed steps is no
    longer than the measure it starts with. -/
theorem run_bounded {P : State → Prop} {A : Label → Prop} {μ : State → ℕ}
    (step : ∀ s l t, P s → A l → next s l = some t → P t ∧ μ t < μ s) {s t : State} {ls : List Label}
    (start : P s) (orderly : ∀ l ∈ ls, A l) (ran : run next s ls = some t) : P t ∧ ls.length + μ t ≤ μ s := by
  have counted := run_counted (p := fun _ => true) (μ := μ) (fun s l t holds allowed taken => by
    obtain ⟨holds', lower⟩ := step s l t holds allowed taken
    exact ⟨holds', by simp; omega⟩) start orderly ran
  simpa using counted

end

/-! ## Traces -/

section
variable {State Label Event Spec : Type*} (next : State → Label → Option State)

/-- Every step of the run keeps to the rule `A`, which may look at the state. -/
def Along (A : State → Label → Prop) : State → List Label → Prop
  | _, [] => True
  | s, l :: ls => A s l ∧ ∀ t, next s l = some t → Along A t ls

theorem along_of_forall {next : State → Label → Option State} {A : State → Label → Prop} {s : State} {ls : List Label}
    (orderly : ∀ l ∈ ls, ∀ s, A s l) : Along next A s ls := by
  induction ls generalizing s with
  | nil => trivial
  | cons l ls ih => exact ⟨orderly l (by simp) s, fun t _ => ih (fun k member => orderly k (by simp [member]))⟩

/-- What is seen of a run, where `observe` says what is seen of a step. -/
def trace (observe : State → Label → Option Event) : State → List Label → List Event
  | _, [] => []
  | s, l :: ls => (observe s l).toList ++ (next s l).elim [] (fun t => trace observe t ls)

/-- The specification may take these events in order and be in the last state then. -/
inductive Allows (Step : Spec → Event → Spec → Prop) : Spec → List Event → Spec → Prop
  | nil (a : Spec) : Allows Step a [] a
  | cons {a b c : Spec} {e : Event} {es : List Event} (first : Step a e b) (rest : Allows Step b es c) :
      Allows Step a (e :: es) c

variable {Step : Spec → Event → Spec → Prop}

theorem Allows.single {a b : Spec} {e : Event} (first : Step a e b) : Allows Step a [e] b :=
  .cons first (.nil b)

theorem Allows.append {a b c : Spec} {es fs : List Event} (left : Allows Step a es b) (right : Allows Step b fs c) :
    Allows Step a (es ++ fs) c := by
  induction left with
  | nil => exact right
  | cons first _ ih => exact .cons first (ih right)

variable {next}

theorem trace_append (observe : State → Label → Option Event) {s m : State} {ls ms : List Label}
    (first : run next s ls = some m) : trace next observe s (ls ++ ms) = trace next observe s ls ++ trace next observe m ms := by
  induction ls generalizing s with
  | nil =>
    cases first
    rfl
  | cons l ls ih =>
    obtain ⟨n, taken, rest⟩ := run_cons.mp first
    rw [List.cons_append, trace, trace, taken, Option.elim_some, Option.elim_some, ih rest, List.append_assoc]

/-- Forward simulation: if what is seen of each step is allowed between related
    states, then what is seen of a run is. -/
theorem trace_allowed {R : State → Spec → Prop} {A : State → Label → Prop} {observe : State → Label → Option Event}
    (step : ∀ s a l t, R s a → A s l → next s l = some t → ∃ b, Allows Step a (observe s l).toList b ∧ R t b)
    {s t : State} {a : Spec} {ls : List Label} (related : R s a) (orderly : Along next A s ls)
    (ran : run next s ls = some t) : ∃ b, Allows Step a (trace next observe s ls) b ∧ R t b := by
  induction ls generalizing s a with
  | nil =>
    cases ran
    exact ⟨a, .nil a, related⟩
  | cons l ls ih =>
    obtain ⟨m, taken, rest⟩ := run_cons.mp ran
    obtain ⟨first, after⟩ := orderly
    obtain ⟨b, seen, middle⟩ := step s a l m related first taken
    obtain ⟨c, more, last⟩ := ih middle (after m taken) rest
    refine ⟨c, ?_, last⟩
    rw [trace, taken]
    exact seen.append more

end

end SteamworksService.Runs
