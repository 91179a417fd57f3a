import Mathlib.Data.Nat.Notation
import Mathlib.Tactic.TypeStar

/-!
# Programs that throw and leave a trace

Imperative code whose effects on the outside are a list of events: a program
returns a value or throws, and the events up to that point stay. The rules of
pre- and postconditions speak of both outcomes, and the rules of `forLoop` and
`retry` are invariants over the passes and the attempts.
-/
namespace SteamworksService.Effects

section
variable {Event Error α β : Type}

abbrev Program (Event Error α : Type) := EStateM Error (List Event) α

/-- One event happens. -/
def emit (event : Event) : Program Event Error Unit := modify (· ++ [event])
/-- A computation without events. -/
def perform (result : Except Error α) : Program Event Error α :=
  match result with
  | .ok a => pure a
  | .error e => throw e
/-- How a program ends when it starts with the given events behind it. -/
def outcome (p : Program Event Error α) (before : List Event) : Except Error α :=
  match p.run before with
  | .ok a _ => .ok a
  | .error e _ => .error e
/-- The events behind a program when it ends. -/
def trace (p : Program Event Error α) (before : List Event) : List Event :=
  match p.run before with
  | .ok _ after => after
  | .error _ after => after

/-- `while (true)` around `try { return attempt(); }`: a failed attempt is
    followed by `pause` and another attempt until there were `maxAttempts`, and
    the last failure is thrown again. -/
def retry (maxAttempts : ℕ) (attempt : ℕ → Program Event Error α) (pause : Error → ℕ → Program Event Error Unit)
    (failedAttempts : ℕ) : Program Event Error α :=
  tryCatch (attempt failedAttempts) fun e =>
    if failedAttempts + 1 ≥ maxAttempts then throw e
    else do
      pause e (failedAttempts + 1)
      retry maxAttempts attempt pause (failedAttempts + 1)
termination_by maxAttempts - failedAttempts

/-- `for (i = first; i < first + n; i++) body(i)`. -/
def forLoop (body : ℕ → Program Event Error Unit) : ℕ → ℕ → Program Event Error Unit
  | 0, _ => pure ()
  | n + 1, first => do
    body first
    forLoop body n (first + 1)

/-! ## Pre- and postconditions -/

/-- The condition on a returned value, or the one on an exception. -/
def ends (returned : α → List Event → Prop) (thrown : Error → List Event → Prop) :
    Except Error α → List Event → Prop
  | .ok a => returned a
  | .error e => thrown e

/-- From every trace in `P` the program ends with an outcome and a trace in `Q`. -/
def Triple (P : List Event → Prop) (p : Program Event Error α) (Q : Except Error α → List Event → Prop) : Prop :=
  ∀ before, P before → Q (outcome p before) (trace p before)

variable {P : List Event → Prop} {p : Program Event Error α} {Q R : Except Error α → List Event → Prop}

theorem Triple.weaken (holds : Triple P p Q) (entails : ∀ result after, Q result after → R result after) :
    Triple P p R := fun before required => entails _ _ (holds before required)

theorem Triple.strengthen {P' : List Event → Prop} (holds : Triple P p Q) (entails : ∀ before, P' before → P before) :
    Triple P' p Q := fun before required => holds before (entails before required)

theorem triple_pure {a : α} (holds : ∀ before, P before → Q (.ok a) before) : Triple P (pure a) Q := holds

theorem triple_throw {e : Error} (holds : ∀ before, P before → Q (.error e) before) : Triple P (throw e) Q := holds

theorem triple_emit {event : Event} {Q : Except Error Unit → List Event → Prop}
    (holds : ∀ before, P before → Q (.ok ()) (before ++ [event])) : Triple P (emit event) Q := holds

theorem triple_perform {result : Except Error α} (holds : ∀ before, P before → Q result before) :
    Triple P (perform result) Q := by
  cases result with
  | ok a => exact triple_pure holds
  | error e => exact triple_throw holds

/-- The first program hands its value on, or throws past the second. -/
theorem triple_bind {next : α → Program Event Error β} {M : α → List Event → Prop}
    {Q : Except Error β → List Event → Prop}
    (first : Triple P p (ends M (fun e => Q (.error e))))
    (second : ∀ a, Triple (M a) (next a) Q) : Triple P (p >>= next) Q := by
  intro before required
  have middle := first before required
  simp only [outcome, trace] at middle ⊢
  rw [EStateM.run_bind]
  cases ended : p.run before with
  | ok a after =>
    rw [ended] at middle
    exact second a after middle
  | error e after =>
    rw [ended] at middle
    exact middle

theorem triple_emit_bind {event : Event} {next : Unit → Program Event Error α} {M : List Event → Prop}
    (happened : ∀ before, P before → M (before ++ [event])) (second : Triple M (next ()) Q) :
    Triple P (emit event >>= next) Q :=
  triple_bind (M := fun _ => M) (triple_emit happened) (fun _ => second)

theorem triple_perform_bind {result : Except Error α} {next : α → Program Event Error β}
    {Q : Except Error β → List Event → Prop}
    (failed : ∀ e, result = .error e → ∀ before, P before → Q (.error e) before)
    (second : ∀ a, result = .ok a → Triple P (next a) Q) : Triple P (perform result >>= next) Q := by
  refine triple_bind (M := fun a after => result = .ok a ∧ P after) (triple_perform ?_) ?_
  · intro before holds
    cases ended : result with
    | ok a => exact ⟨rfl, holds⟩
    | error e => exact failed e ended before holds
  · intro a before holds
    exact second a holds.1 before holds.2

theorem triple_catch {handle : Error → Program Event Error α} {M : Error → List Event → Prop}
    (body : Triple P p (ends (fun a => Q (.ok a)) M))
    (handler : ∀ e, Triple (M e) (handle e) Q) : Triple P (tryCatch p handle) Q := by
  intro before required
  have middle := body before required
  have unfolded : (tryCatch p handle : Program Event Error α).run before = match p.run before with
      | .ok a after => .ok a after
      | .error e after => (handle e).run after := by
    show EStateM.tryCatch p handle before = _
    unfold EStateM.tryCatch
    simp only [EStateM.run]
    cases p before <;> rfl
  simp only [outcome, trace] at middle ⊢
  rw [unfolded]
  cases ended : p.run before with
  | ok a after =>
    rw [ended] at middle
    exact middle
  | error e after =>
    rw [ended] at middle
    exact handler e after middle

/-- `I i` holds before the body is run for `i`, and `E` once it has thrown. -/
theorem triple_forLoop {body : ℕ → Program Event Error Unit} {I : ℕ → List Event → Prop}
    {E : Error → List Event → Prop} {n first : ℕ}
    (step : ∀ i, first ≤ i → i < first + n → Triple (I i) (body i) (ends (fun _ => I (i + 1)) E)) :
    Triple (I first) (forLoop body n first) (ends (fun _ => I (first + n)) E) := by
  induction n generalizing first with
  | zero => exact triple_pure (fun _ holds => holds)
  | succ n ih =>
    have head := step first (Nat.le_refl first) (by omega)
    have rest : Triple (I (first + 1)) (forLoop body n (first + 1)) (ends (fun _ => I (first + 1 + n)) E) :=
      ih (fun i low high => step i (by omega) (by omega))
    rw [Nat.add_right_comm, Nat.add_assoc] at rest
    exact triple_bind head (fun _ => rest)

/-- `I i` holds before the attempt after `i` failed ones, `F i e` once that
    attempt has thrown `e` and another one is left. -/
theorem triple_retry {maxAttempts : ℕ} {attempt : ℕ → Program Event Error α}
    {pause : Error → ℕ → Program Event Error Unit} {I : ℕ → List Event → Prop}
    {F : ℕ → Error → List Event → Prop}
    (tried : ∀ i, Triple (I i) (attempt i) (ends (fun a => Q (.ok a))
      (fun e => if i + 1 ≥ maxAttempts then Q (.error e) else F i e)))
    (paused : ∀ i e, i + 1 < maxAttempts → Triple (F i e) (pause e (i + 1))
      (ends (fun _ => I (i + 1)) (fun thrown => Q (.error thrown))))
    (i : ℕ) : Triple (I i) (retry maxAttempts attempt pause i) Q := by
  induction left : maxAttempts - i generalizing i with
  | zero =>
    rw [retry]
    apply triple_catch (tried i)
    intro e
    have last : i + 1 ≥ maxAttempts := by omega
    simp only [if_pos last]
    exact triple_throw (fun _ holds => holds)
  | succ n ih =>
    rw [retry]
    apply triple_catch (tried i)
    intro e
    by_cases last : i + 1 ≥ maxAttempts
    · simp only [if_pos last]
      exact triple_throw (fun _ holds => holds)
    · simp only [if_neg last]
      exact triple_bind (paused i e (by omega)) (fun _ => ih (i + 1) (by omega))

end

end SteamworksService.Effects
