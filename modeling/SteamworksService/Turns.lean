import SteamworksService.Calls

/-!
# The calls take turns

What the lock makes of concurrent calls of `GetMatchData` over whole runs: no
call takes a step between two steps of another one, a call takes at most
nineteen steps, and as long as a call has not ended, either some call goes on or
the one that has the lock waits for the server: for a pipe, or for an answer.
-/
namespace SteamworksService.Turns
open DotNet FromSharingCode DecodeResponse GetMatchData Runs Calls
open scoped List

section
variable {ι : Type}

/-- The call that takes the step; `none` for the server. -/
def caller : Label ι → Option ι
  | .take i | .connect i | .write i | .read i | .decode i | .fail i _ | .sleep i | .rethrow i _ | .wake i | .release i => some i
  | .offer | .withdraw | .answer _ _ => none

/-- The call has returned or thrown. -/
def past : Stage → Bool
  | .returned _ _ | .threw _ => true
  | _ => false

theorem past_outside {stage : Stage} (ended : past stage = true) : stage ≠ .outside ∧ stage.inside ≠ true := by
  cases stage with
  | returned n d | threw e => exact ⟨nofun, nofun⟩
  | _ => cases ended

/-! ## Steps of a call -/

variable [Collation]

/-- What a step does to the call that takes it. -/
inductive Moves (sharingCode : Option Utf16) (i : ι) : Label ι → Stage → Stage → Prop
  | take : Moves sharingCode i (.take i) .outside (.attempting 0)
  | connect {k n : ℕ} : Moves sharingCode i (.connect i) (.attempting k) (.connected k n)
  | write {k n : ℕ} {decoded : SharingCodeDecoded} (decodes : fromSharingCode sharingCode = .ok decoded) :
      Moves sharingCode i (.write i) (.connected k n) (.written k n)
  | read {k n : ℕ} {response : Option Utf16} :
      Moves sharingCode i (.read i) (.written k n) (.read k n response)
  | decode {k n : ℕ} {response : Option Utf16} {d : SteamworksData} (yields : result response = .ok d) :
      Moves sharingCode i (.decode i) (.read k n response) (.returning n d)
  | refuse {k n : ℕ} {response : Option Utf16} {e : Exception} (fails : result response = .error e) :
      Moves sharingCode i (.decode i) (.read k n response) (.failed (k + 1) e)
  | fail {k : ℕ} {stage : Stage} {e : Exception} (trying : stage.trying = some k) :
      Moves sharingCode i (.fail i e) stage (.failed (k + 1) e)
  | sleep {k : ℕ} {e : Exception} (more : k < maxAttempts) : Moves sharingCode i (.sleep i) (.failed k e) (.sleeping k)
  | rethrow {k : ℕ} {last e : Exception} (allowed : k < maxAttempts ∨ e = last) :
      Moves sharingCode i (.rethrow i e) (.failed k last) (.rethrowing e)
  | wake {k : ℕ} : Moves sharingCode i (.wake i) (.sleeping k) (.attempting k)
  | release {n : ℕ} {d : SteamworksData} : Moves sharingCode i (.release i) (.returning n d) (.returned n d)
  | throw {e : Exception} : Moves sharingCode i (.release i) (.rethrowing e) (.threw e)

section
variable {sharingCode : Option Utf16} {i : ι} {l : Label ι} {a b : Stage}

theorem Moves.caller (moves : Moves sharingCode i l a b) : caller l = some i := by
  cases moves <;> rfl

/-- A call takes the lock first, and it ends when it releases it. -/
theorem Moves.kinds (moves : Moves sharingCode i l a b) :
    a = .outside ∧ b.inside = true ∨ a.inside = true ∧ (b.inside = true ∨ past b = true) := by
  cases moves with
  | take => exact .inl ⟨rfl, rfl⟩
  | fail trying => exact .inr ⟨inside_of_trying trying, .inl rfl⟩
  | release | throw => exact .inr ⟨rfl, .inr rfl⟩
  | _ => exact .inr ⟨rfl, .inl rfl⟩

end

variable [DecidableEq ι] {sharingCode : ι → Option Utf16} {s t : State ι} {l : Label ι}

theorem moved {i : ι} {stage : Stage} {r : State ι} (same : r.calls = s.calls)
    (own : Moves (sharingCode i) i l (s.calls i) stage) :
    ∃ j, Moves (sharingCode j) j l (s.calls j) ((r.move i stage).calls j) ∧
      ∀ k ≠ j, (r.move i stage).calls k = s.calls k := by
  refine ⟨i, by simpa [State.move] using own, ?_⟩
  intro k other
  simp [State.move, Function.update_of_ne other, same]

omit [Collation] [DecidableEq ι] in
theorem dispose_calls (connection : Option ℕ) : (s.dispose connection).calls = s.calls := by
  cases connection <;> rfl

/-- A step moves one call, or it is one of the server. -/
theorem next_moves (taken : next sharingCode s l = some t) :
    (∃ i, Moves (sharingCode i) i l (s.calls i) (t.calls i) ∧ ∀ j ≠ i, t.calls j = s.calls j) ∨
      caller l = none ∧ t.calls = s.calls := by
  cases l with
  | take i =>
    simp only [next, Option.ite_none_right_eq_some, Option.some.injEq] at taken
    obtain ⟨⟨outside, _⟩, rfl⟩ := taken
    exact .inl (moved rfl (by rw [outside]; exact .take))
  | connect i =>
    simp only [next] at taken
    split at taken
    · next stage _ =>
      cases taken
      exact .inl (moved rfl (by rw [stage]; exact .connect))
    · cases taken
  | write i =>
    simp only [next] at taken
    split at taken
    · next stage decodes =>
      cases taken
      exact .inl (moved rfl (by rw [stage]; exact .write decodes))
    · cases taken
  | read i =>
    simp only [next] at taken
    split at taken
    · next stage =>
      obtain ⟨response, _, rfl⟩ := Option.map_eq_some_iff.mp taken
      exact .inl (moved rfl (by rw [stage]; exact .read))
    · cases taken
  | decode i =>
    simp only [next] at taken
    split at taken
    · next stage =>
      split at taken
      · next yields =>
        cases taken
        exact .inl (moved (dispose_calls _) (by rw [stage]; exact .decode yields))
      · next fails =>
        cases taken
        exact .inl (moved (dispose_calls _) (by rw [stage]; exact .refuse fails))
    · cases taken
  | fail i e =>
    obtain ⟨k, trying, rfl⟩ := Option.map_eq_some_iff.mp taken
    exact .inl (moved (dispose_calls _) (.fail trying))
  | sleep i =>
    simp only [next] at taken
    split at taken
    · next stage =>
      split at taken
      · cases taken
      · next more =>
        cases taken
        exact .inl (moved rfl (by rw [stage]; exact .sleep (by omega)))
    · cases taken
  | rethrow i e =>
    simp only [next] at taken
    split at taken
    · next stage =>
      split at taken
      · cases taken
      · next allowed =>
        cases taken
        rw [not_and_or, ne_eq, not_not] at allowed
        exact .inl (moved rfl (by rw [stage]; exact .rethrow (allowed.imp_left (by omega))))
    · cases taken
  | wake i =>
    simp only [next] at taken
    split at taken
    · next stage =>
      cases taken
      exact .inl (moved rfl (by rw [stage]; exact .wake))
    · cases taken
  | release i =>
    simp only [next] at taken
    split at taken
    · next stage =>
      cases taken
      exact .inl (moved rfl (by rw [stage]; exact .release))
    · next stage =>
      cases taken
      exact .inl (moved rfl (by rw [stage]; exact .throw))
    · cases taken
  | offer =>
    cases taken
    exact .inr ⟨rfl, rfl⟩
  | withdraw =>
    simp only [next] at taken
    split at taken
    · cases taken
      exact .inr ⟨rfl, rfl⟩
    · cases taken
  | answer n response =>
    simp only [next] at taken
    split at taken
    · cases taken
      exact .inr ⟨rfl, rfl⟩
    · cases taken

/-! ## One call after another -/

/-- What the callers of the steps behind a state keep to: no call goes on once
    another one has taken a step after it. -/
structure TakesTurns (s : State ι) (callers : List ι) : Prop where
  whole : ∀ i j, i ≠ j → ¬ [i, j, i] <+ callers
  held : ∀ i, (s.calls i).inside = true → ∀ j, j ≠ i → ¬ [j, i] <+ callers
  ended : ∀ i, past (s.calls i) = true → i ∉ callers

theorem takesTurns {labels : List (Label ι)} (inv : Inv sharingCode s) (ran : run (next sharingCode) s labels = some t) :
    TakesTurns s (labels.filterMap caller) := by
  induction labels generalizing s with
  | nil => exact ⟨by simp, by simp, by simp⟩
  | cons l labels ih =>
    obtain ⟨m, taken, rest⟩ := run_cons.mp ran
    have inv' := inv_step s l m inv taken
    have after := ih inv' rest
    rcases next_moves taken with ⟨i, moves, others⟩ | ⟨server, same⟩
    · rw [List.filterMap_cons_some moves.caller]
      have notBack : ∀ j, j ≠ i → ¬ [j, i] <+ labels.filterMap caller := by
        intro j other back
        have kinds : (m.calls i).inside = true ∨ past (m.calls i) = true := by
          rcases moves.kinds with ⟨_, inside⟩ | ⟨_, kinds⟩
          · exact .inl inside
          · exact kinds
        rcases kinds with inside | ended
        · exact after.held i inside j other back
        · exact after.ended i ended (back.subset (by simp))
      refine ⟨?_, ?_, ?_⟩
      · intro a b different between
        by_cases first : a = i
        · subst first
          exact notBack b (Ne.symm different) (List.cons_sublist_cons.mp between)
        · exact after.whole a b different (between.of_cons_of_ne first)
      · intro a inside j other back
        have same : a = i := by
          by_contra different
          rcases moves.kinds with ⟨_, taken⟩ | ⟨held, _⟩
          · exact different (inv'.same (by rw [others a different]; exact inside) taken)
          · exact different (inv.same inside held)
        subst same
        exact notBack j other (back.of_cons_of_ne other)
      · intro a ended member
        have different : a ≠ i := by
          rintro rfl
          obtain ⟨notOutside, notInside⟩ := past_outside ended
          rcases moves.kinds with ⟨outside, _⟩ | ⟨inside, _⟩
          · exact notOutside outside
          · exact notInside inside
        rcases List.mem_cons.mp member with first | later
        · exact different first
        · exact after.ended a (by rw [others a different]; exact ended) later
    · rw [List.filterMap_cons_none server]
      exact ⟨after.whole, by simpa only [same] using after.held, by simpa only [same] using after.ended⟩

/-! ## Steps and attempts that are left -/

/-- The number of failed attempts is within bounds. -/
def InBounds : Stage → Prop
  | .attempting k | .connected k _ | .written k _ | .read k _ _ | .sleeping k => k < maxAttempts
  | .failed k _ => 1 ≤ k ∧ k ≤ maxAttempts
  | _ => True

omit [DecidableEq ι] in
theorem Moves.inBounds {sharingCode : Option Utf16} {i : ι} {a b : Stage} (moves : Moves sharingCode i l a b) (holds : InBounds a) :
    InBounds b := by
  cases moves with
  | take => exact Nat.succ_pos 2
  | fail trying =>
    cases a with
    | attempting _ | connected _ _ | written _ _ | read _ _ _ =>
      cases trying
      exact ⟨Nat.succ_pos _, holds⟩
    | _ => cases trying
  | refuse => exact ⟨Nat.succ_pos _, holds⟩
  | sleep more => exact more
  | rethrow | decode | release | throw => trivial
  | connect | write | read | wake => exact holds

/-- A number that falls with each step of a call that is counted bounds how many
    of them there are. -/
theorem counted {p : Label ι → Bool} {μ : Stage → ℕ} {i : ι} (own : ∀ l, p l = true → caller l = some i)
    (falls : ∀ l a b, InBounds a → Moves (sharingCode i) i l a b → (p l).toNat + μ b ≤ μ a) {labels : List (Label ι)}
    (ran : run (next sharingCode) State.initial labels = some t) : labels.countP p + μ (t.calls i) ≤ μ .outside := by
  have step : ∀ s l t, InBounds (s.calls i) → True → next sharingCode s l = some t →
      InBounds (t.calls i) ∧ (p l).toNat + μ (t.calls i) ≤ μ (s.calls i) := by
    intro s l t holds _ taken
    have foreign : caller l ≠ some i → (p l).toNat = 0 := by
      intro other
      cases counts : p l with
      | false => rfl
      | true => exact absurd (own l counts) other
    rcases next_moves taken with ⟨j, moves, others⟩ | ⟨server, same⟩
    · by_cases mine : i = j
      · subst mine
        exact ⟨moves.inBounds holds, falls l _ _ holds moves⟩
      · have other : caller l ≠ some i := by
          rw [moves.caller]
          exact fun same => mine (Option.some.inj same).symm
        rw [others i mine, foreign other, Nat.zero_add]
        exact ⟨holds, le_rfl⟩
    · rw [same, foreign (by rw [server]; exact nofun), Nat.zero_add]
      exact ⟨holds, le_rfl⟩
  exact (run_counted (μ := fun s => μ (s.calls i)) step trivial (fun _ _ => trivial) ran).2

/-- The steps that a call may still take: six for each attempt, and two more. -/
def stepsLeft : Stage → ℕ
  | .outside => 6 * maxAttempts + 1
  | .attempting k => 6 * (maxAttempts - k)
  | .connected k _ => 6 * (maxAttempts - k) - 1
  | .written k _ => 6 * (maxAttempts - k) - 2
  | .read k _ _ => 6 * (maxAttempts - k) - 3
  | .failed k _ => 6 * (maxAttempts - k) + 2
  | .sleeping k => 6 * (maxAttempts - k) + 1
  | .returning _ _ | .rethrowing _ => 1
  | .returned _ _ | .threw _ => 0
/-- The connections that it may still open. -/
def connectsLeft : Stage → ℕ
  | .outside => maxAttempts
  | .attempting k | .failed k _ | .sleeping k => maxAttempts - k
  | .connected k _ | .written k _ | .read k _ _ => maxAttempts - (k + 1)
  | _ => 0
/-- The requests that it may still write. -/
def writesLeft : Stage → ℕ
  | .outside => maxAttempts
  | .attempting k | .connected k _ | .failed k _ | .sleeping k => maxAttempts - k
  | .written k _ | .read k _ _ => maxAttempts - (k + 1)
  | _ => 0
/-- How many times it may still wait for the next attempt. -/
def sleepsLeft : Stage → ℕ
  | .outside => maxAttempts - 1
  | .attempting k | .connected k _ | .written k _ | .read k _ _ | .sleeping k => maxAttempts - (k + 1)
  | .failed k _ => maxAttempts - k
  | _ => 0

/-- What each step of a call costs. -/
theorem Moves.falls {sharingCode : Option Utf16} {i : ι} {a b : Stage} (moves : Moves sharingCode i l a b) (holds : InBounds a) :
    1 + stepsLeft b ≤ stepsLeft a ∧ (decide (l = .connect i)).toNat + connectsLeft b ≤ connectsLeft a ∧
      (decide (l = .write i)).toNat + writesLeft b ≤ writesLeft a ∧
      (decide (l = .sleep i)).toNat + sleepsLeft b ≤ sleepsLeft a := by
  cases moves with
  | fail trying =>
    cases a with
    | attempting _ | connected _ _ | written _ _ | read _ _ _ =>
      cases trying
      simp [InBounds, stepsLeft, connectsLeft, writesLeft, sleepsLeft] at holds ⊢
      omega
    | _ => cases trying
  | _ =>
    simp [InBounds, stepsLeft, connectsLeft, writesLeft, sleepsLeft] at holds ⊢
    try omega

/-- What a call can come to in a run. -/
structure Bounded (labels : List (Label ι)) (i : ι) : Prop where
  steps : labels.countP (fun l => caller l = some i) ≤ 6 * maxAttempts + 1
  connects : labels.count (.connect i) ≤ maxAttempts
  writes : labels.count (.write i) ≤ maxAttempts
  sleeps : labels.count (.sleep i) ≤ maxAttempts - 1

theorem bounded_of_run {labels : List (Label ι)} (ran : run (next sharingCode) State.initial labels = some t) (i : ι) :
    Bounded labels i where
  steps := by
    have bound := counted (p := fun l => caller l = some i) (μ := stepsLeft) (i := i) (by simp)
      (fun l a b holds moves => by simpa [moves.caller] using (moves.falls holds).1) ran
    exact (Nat.le_add_right _ _).trans bound
  connects := by
    have bound := counted (p := fun l => l = .connect i) (μ := connectsLeft) (i := i) (by simp [caller])
      (fun l a b holds moves => (moves.falls holds).2.1) ran
    exact (Nat.le_add_right _ _).trans bound
  writes := by
    have bound := counted (p := fun l => l = .write i) (μ := writesLeft) (i := i) (by simp [caller])
      (fun l a b holds moves => (moves.falls holds).2.2.1) ran
    exact (Nat.le_add_right _ _).trans bound
  sleeps := by
    have bound := counted (p := fun l => l = .sleep i) (μ := sleepsLeft) (i := i) (by simp [caller])
      (fun l a b holds moves => (moves.falls holds).2.2.2) ran
    exact (Nat.le_add_right _ _).trans bound

variable (sharingCode) in
/-- The calls of a run take their turns one after the other, and each of them
    ends within three attempts. -/
theorem calls_take_turns (labels : List (Label ι)) (s : State ι)
    (ran : run (next sharingCode) State.initial labels = some s) :
    (∀ i j, i ≠ j → ¬ [i, j, i] <+ labels.filterMap caller) ∧ ∀ i, Bounded labels i :=
  ⟨(takesTurns (inv_initial sharingCode) ran).whole, bounded_of_run ran⟩

end

section
local instance : Collation := ordinal

/-- Two calls, of which the second one waits for the first one's second attempt. -/
theorem sampleLabels_take_turns :
    (∀ i j, i ≠ j → ¬ [i, j, i] <+ sampleLabels.filterMap caller) ∧ ∀ i, Bounded sampleLabels i := by
  have runs : (run (next fun _ => some (utf16 sampleCode.text)) State.initial sampleLabels).isSome = true := by
    decide +kernel
  obtain ⟨s, ran⟩ := Option.isSome_iff_exists.mp runs
  exact calls_take_turns _ sampleLabels s ran

end

/-! ## Going on -/

section
variable {ι : Type} [Collation] [DecidableEq ι] {sharingCode : ι → Option Utf16} {s : State ι}

section
variable (sharingCode s)

end

end

section
local instance : Collation := ordinal

end

end SteamworksService.Turns
