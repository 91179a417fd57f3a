import SteamworksService.GetMatchData
import SteamworksService.Runs
import Mathlib.Logic.Function.Basic

/-!
# Concurrent calls

Any number of `GetMatchData` calls, taking their steps in any order. The lock is
a static object of the class, so it makes no difference which calls belong to
which `SteamworksCommunicator`. Each attempt opens a pipe connection of its own,
for which it waits without a limit while the server offers no pipe, and the
server answers a request on the connection that it came in on.
-/
namespace SteamworksService.Calls
open DotNet FromSharingCode DecodeResponse GetMatchData Runs

/-! ## States and steps -/

/-- A pipe connection: the call that opened it, whether its client end is open, the
    request line that was written on it and the line (or end of stream) that came back. -/
structure Connection (ι : Type) where
  client : Option ι
  live : Bool
  request : Option Utf16
  response : Option (Option Utf16)
  deriving DecidableEq, Repr

/-- Where a call stands: how many of its attempts have failed and which connection
    it holds, or has its data from. -/
inductive Stage
  | outside
  | attempting (failedAttempts : ℕ)
  | connected (failedAttempts : ℕ) (connection : ℕ)
  | written (failedAttempts : ℕ) (connection : ℕ)
  | read (failedAttempts : ℕ) (connection : ℕ) (response : Option Utf16)
  | failed (failedAttempts : ℕ) (e : Exception)
  | sleeping (failedAttempts : ℕ)
  | returning (connection : ℕ) (d : SteamworksData)
  | rethrowing (e : Exception)
  | returned (connection : ℕ) (d : SteamworksData)
  | threw (e : Exception)
  deriving DecidableEq, Repr

/-- Between taking the lock and releasing it. -/
def Stage.inside : Stage → Bool
  | .outside | .returned _ _ | .threw _ => false
  | _ => true
def Stage.connection : Stage → Option ℕ
  | .connected _ n | .written _ n | .read _ n _ => some n
  | _ => none
/-- The number of failed attempts, inside the `try` block. -/
def Stage.trying : Stage → Option ℕ
  | .attempting k | .connected k _ | .written k _ | .read k _ _ => some k
  | _ => none
/-- How the call has ended. -/
def Stage.ended : Stage → Option (Except Exception SteamworksData)
  | .returned _ d => some (.ok d)
  | .threw e => some (.error e)
  | _ => none

theorem inside_of_connection {stage : Stage} {n : ℕ} (holds : stage.connection = some n) : stage.inside = true := by
  cases stage with
  | connected _ _ => rfl
  | written _ _ => rfl
  | read _ _ _ => rfl
  | _ => simp [Stage.connection] at holds

theorem inside_of_trying {stage : Stage} {k : ℕ} (holds : stage.trying = some k) : stage.inside = true := by
  cases stage with
  | attempting _ => rfl
  | connected _ _ => rfl
  | written _ _ => rfl
  | read _ _ _ => rfl
  | _ => simp [Stage.trying] at holds

section
variable {ι : Type} [DecidableEq ι]

/-- `obj`'s owner, the calls, the connections, of which those from `fresh` on have
    not been opened, and the number of pipes that the server offers. -/
structure State (ι : Type) where
  owner : Option ι
  calls : ι → Stage
  connections : ℕ → Connection ι
  fresh : ℕ
  offered : ℕ

inductive Label (ι : Type)
  | take (i : ι)
  | connect (i : ι)
  | write (i : ι)
  | read (i : ι)
  | decode (i : ι)
  | fail (i : ι) (e : Exception)
  | sleep (i : ι)
  | rethrow (i : ι) (e : Exception)
  | wake (i : ι)
  | release (i : ι)
  | offer
  | withdraw
  | answer (connection : ℕ) (response : Option Utf16)
  deriving DecidableEq, Repr

def State.initial : State ι := ⟨none, fun _ => .outside, fun _ => ⟨none, false, none, none⟩, 0, 0⟩

def State.move (s : State ι) (i : ι) (stage : Stage) : State ι := { s with calls := Function.update s.calls i stage }
def State.set (s : State ι) (n : ℕ) (connection : Connection ι) : State ι :=
  { s with connections := Function.update s.connections n connection }
/-- The `using` blocks are left. -/
def State.dispose (s : State ι) : Option ℕ → State ι
  | none => s
  | some n => s.set n { s.connections n with live := false }

section
variable (s : State ι) {n m : ℕ} {connection : Connection ι} {i j : ι} {stage : Stage}

omit [DecidableEq ι]
@[simp] theorem State.set_self : (s.set n connection).connections n = connection := by simp [State.set]
@[simp] theorem State.set_other (other : m ≠ n) : (s.set n connection).connections m = s.connections m := by
  simp [State.set, Function.update_of_ne other]
@[simp] theorem State.set_fresh : (s.set n connection).fresh = s.fresh := rfl
@[simp] theorem State.set_offered : (s.set n connection).offered = s.offered := rfl
theorem State.dispose_some : s.dispose (some n) = s.set n { s.connections n with live := false } := rfl

end

variable [Collation] (sharingCode : ι → Option Utf16)

def next (s : State ι) : Label ι → Option (State ι)
  | .take i =>
    if s.calls i = .outside ∧ s.owner = none then some ({ s with owner := some i }.move i (.attempting 0)) else none
  -- `Connect()` takes one of the pipes that are offered, and waits while there is none
  | .connect i =>
    match s.calls i, s.offered with
    | .attempting k, offered + 1 =>
      some (({ s with fresh := s.fresh + 1, offered := offered }.set s.fresh ⟨some i, true, none, none⟩).move i
        (.connected k s.fresh))
    | _, _ => none
  | .write i =>
    match s.calls i, fromSharingCode (sharingCode i) with
    | .connected k n, .ok decoded =>
      some ((s.set n { s.connections n with request := some decoded.toPipeFormat }).move i (.written k n))
    | _, _ => none
  | .read i =>
    match s.calls i with
    | .written k n => (s.connections n).response.map (fun response => s.move i (.read k n response))
    | _ => none
  | .decode i =>
    match s.calls i with
    | .read k n response =>
      match result response with
      | .ok d => some ((s.dispose (some n)).move i (.returning n d))
      | .error e => some ((s.dispose (some n)).move i (.failed (k + 1) e))
    | _ => none
  -- any operation of the `try` block can throw, the logger's among them
  | .fail i e => (s.calls i).trying.map (fun k => (s.dispose (s.calls i).connection).move i (.failed (k + 1) e))
  | .sleep i =>
    match s.calls i with
    | .failed k _ => if k ≥ maxAttempts then none else some (s.move i (.sleeping k))
    | _ => none
  -- the last failure is thrown again; an earlier one can give way to the logger's
  | .rethrow i e =>
    match s.calls i with
    | .failed k last => if k ≥ maxAttempts ∧ e ≠ last then none else some (s.move i (.rethrowing e))
    | _ => none
  | .wake i =>
    match s.calls i with
    | .sleeping k => some (s.move i (.attempting k))
    | _ => none
  | .release i =>
    match s.calls i with
    | .returning n d => some ({ s with owner := none }.move i (.returned n d))
    | .rethrowing e => some ({ s with owner := none }.move i (.threw e))
    | _ => none
  | .offer => some { s with offered := s.offered + 1 }
  | .withdraw =>
    match s.offered with
    | offered + 1 => some { s with offered := offered }
    | 0 => none
  | .answer n response =>
    match s.connections n with
    | ⟨client, live, some request, none⟩ => some (s.set n ⟨client, live, some request, some response⟩)
    | _ => none

/-! ## What holds in every reachable state -/

/-- A request is written and not answered yet, on a connection that is still open. -/
def State.Pending (s : State ι) (n : ℕ) : Prop :=
  (s.connections n).live = true ∧ (s.connections n).request ≠ none ∧ (s.connections n).response = none

/-- The data were decoded from what came back on a connection that the call itself
    opened, and on which it asked for the match of its own sharing code. -/
def State.Own (s : State ι) (i : ι) (n : ℕ) (d : SteamworksData) : Prop :=
  ∃ decoded response, fromSharingCode (sharingCode i) = .ok decoded ∧ (s.connections n).client = some i ∧
    (s.connections n).request = some (decimal decoded.matchId.toNat ++ text "|" ++
      decimal decoded.outcomeId.toNat ++ text "|" ++ decimal decoded.token.toNat) ∧
    (s.connections n).response = some response ∧ result response = .ok d

structure Safe (s : State ι) : Prop where
  oneByOne : ∀ m n, s.Pending m → s.Pending n → m = n
  alone : ∀ i j, (s.calls i).inside = true →
    ((∃ k, s.calls j = .attempting k) ∨ (next sharingCode s (.connect j)).isSome ∨
      (next sharingCode s (.write j)).isSome) → j = i
  free : (∀ i, (s.calls i).inside = false) → s.owner = none
  own : ∀ i n d, s.calls i = .returned n d → s.Own sharingCode i n d

/-! ## The invariant -/

/-- What a stage says about the connections. -/
def State.Fits (s : State ι) (i : ι) : Stage → Prop
  | .connected _ n => s.connections n = ⟨some i, true, none, none⟩
  | .written _ n => ∃ decoded, fromSharingCode (sharingCode i) = .ok decoded ∧
      (s.connections n).client = some i ∧ (s.connections n).request = some decoded.toPipeFormat
  | .read _ n response => ∃ decoded, fromSharingCode (sharingCode i) = .ok decoded ∧
      (s.connections n).client = some i ∧ (s.connections n).request = some decoded.toPipeFormat ∧
      (s.connections n).response = some response
  | .returning n d | .returned n d => s.Own sharingCode i n d
  | _ => True

structure Inv (s : State ι) : Prop where
  lock : ∀ i, (s.calls i).inside = true ↔ s.owner = some i
  fits : ∀ i, s.Fits sharingCode i (s.calls i)
  live : ∀ n, (s.connections n).live = true → ∃ i, (s.calls i).connection = some n
  fresh : ∀ n, s.fresh ≤ n → s.connections n = ⟨none, false, none, none⟩

omit [DecidableEq ι] in
theorem inv_initial : Inv sharingCode (State.initial : State ι) where
  lock i := by simp [State.initial, Stage.inside]
  fits _ := trivial
  live n isLive := by simp [State.initial] at isLive
  fresh _ _ := rfl

variable {sharingCode}

section
variable {s t : State ι}

omit [DecidableEq ι] in
theorem Inv.same (inv : Inv sharingCode s) {i j : ι} (first : (s.calls i).inside = true)
    (second : (s.calls j).inside = true) : i = j := by
  have owner := (inv.lock i).mp first
  rw [(inv.lock j).mp second] at owner
  exact (Option.some.inj owner).symm

/-- Answered requests stay as they are. -/
def Keeps (s t : State ι) : Prop := ∀ n, (s.connections n).response ≠ none →
  (t.connections n).client = (s.connections n).client ∧ (t.connections n).request = (s.connections n).request ∧
    (t.connections n).response = (s.connections n).response

omit [DecidableEq ι] in
theorem State.Own.kept {i : ι} {n : ℕ} {d : SteamworksData} (own : s.Own sharingCode i n d) (keeps : Keeps s t) :
    t.Own sharingCode i n d := by
  obtain ⟨decoded, response, decodes, client, request, answered, yields⟩ := own
  obtain ⟨client', request', answered'⟩ := keeps n (by simp [answered])
  exact ⟨decoded, response, decodes, client'.trans client, request'.trans request, answered'.trans answered, yields⟩

omit [DecidableEq ι] in
/-- Outside the lock a stage only speaks of answered requests. -/
theorem State.Fits.kept {i : ι} {stage : Stage} (fits : s.Fits sharingCode i stage) (outside : stage.inside = false)
    (keeps : Keeps s t) : t.Fits sharingCode i stage := by
  cases stage with
  | returned n d => exact State.Own.kept fits keeps
  | outside => trivial
  | threw e => trivial
  | _ => simp [Stage.inside] at outside

omit [DecidableEq ι] in
/-- The only connections open are those of the call that has the lock. -/
theorem Inv.connection_of_live (inv : Inv sharingCode s) {i : ι} (inside : (s.calls i).inside = true) {n : ℕ}
    (live : (s.connections n).live = true) : (s.calls i).connection = some n := by
  obtain ⟨j, holds⟩ := inv.live n live
  rw [inv.same inside (inside_of_connection holds), holds]

/-- A step of a call that stays inside the lock. -/
theorem Inv.step (inv : Inv sharingCode s) {i : ι} {stage : Stage} {connections : ℕ → Connection ι} {fresh offered : ℕ}
    (before : (s.calls i).inside = true) (after : stage.inside = true)
    (keeps : Keeps s ⟨s.owner, Function.update s.calls i stage, connections, fresh, offered⟩)
    (fits : State.Fits sharingCode ⟨s.owner, Function.update s.calls i stage, connections, fresh, offered⟩ i stage)
    (live : ∀ n, (connections n).live = true → stage.connection = some n)
    (blank : ∀ n, fresh ≤ n → connections n = ⟨none, false, none, none⟩) :
    Inv sharingCode ⟨s.owner, Function.update s.calls i stage, connections, fresh, offered⟩ where
  lock j := by
    by_cases same : j = i
    · subst same
      simp [after, (inv.lock j).mp before]
    · simp [Function.update_of_ne same, inv.lock j]
  fits j := by
    by_cases same : j = i
    · subst same
      simpa using fits
    · have outside : (s.calls j).inside = false := by
        by_contra inside
        exact same (inv.same (by simpa using inside) before)
      simp only [Function.update_of_ne same]
      exact (inv.fits j).kept outside keeps
  live n isLive := ⟨i, by simpa using live n isLive⟩
  fresh := blank

/-- A step that leaves the connections alone. -/
theorem Inv.move (inv : Inv sharingCode s) {i : ι} {stage : Stage} (before : (s.calls i).inside = true)
    (after : stage.inside = true) (same : stage.connection = (s.calls i).connection)
    (fits : (s.move i stage).Fits sharingCode i stage) : Inv sharingCode (s.move i stage) := by
  refine inv.step before after (fun _ _ => ⟨rfl, rfl, rfl⟩) fits ?_ inv.fresh
  intro n live
  rw [same]
  exact inv.connection_of_live before live

/-- A step that closes the call's connection. -/
theorem Inv.dispose (inv : Inv sharingCode s) {i : ι} {stage : Stage} (before : (s.calls i).inside = true)
    (after : stage.inside = true) (fits : ((s.dispose (s.calls i).connection).move i stage).Fits sharingCode i stage) :
    Inv sharingCode ((s.dispose (s.calls i).connection).move i stage) := by
  cases holds : (s.calls i).connection with
  | none =>
    rw [holds] at fits
    refine inv.step before after (fun _ _ => ⟨rfl, rfl, rfl⟩) fits ?_ inv.fresh
    intro n live
    have opened := inv.connection_of_live before live
    rw [holds] at opened
    cases opened
  | some m =>
    rw [holds] at fits
    rw [State.dispose_some] at fits ⊢
    refine inv.step before after ?_ fits ?_ ?_
    · intro n _
      by_cases same : n = m
      · subst same
        simp
      · simp [same]
    · intro n live
      by_cases same : n = m
      · subst same
        simp at live
      · rw [State.set_other s same] at live
        have opened := inv.connection_of_live before live
        rw [holds] at opened
        exact absurd (Option.some.inj opened).symm same
    · intro n unopened
      by_cases same : n = m
      · subst same
        simp [inv.fresh n unopened]
      · rw [State.set_other s same]
        exact inv.fresh n unopened

theorem Inv.take (inv : Inv sharingCode s) {i : ι} (outside : s.calls i = .outside) (free : s.owner = none) :
    Inv sharingCode ({ s with owner := some i }.move i (.attempting 0)) where
  lock j := by
    by_cases same : j = i
    · subst same
      simp [State.move, Stage.inside]
    · have elsewhere : (s.calls j).inside ≠ true := by
        rw [ne_eq, inv.lock j, free]
        simp
      simp [State.move, Function.update_of_ne same, elsewhere, Ne.symm same]
  fits j := by
    by_cases same : j = i
    · subst same
      simp [State.move, State.Fits]
    · simp only [State.move, Function.update_of_ne same]
      exact inv.fits j
  live n isLive := by
    obtain ⟨j, holds⟩ := inv.live n isLive
    have same : j ≠ i := by
      rintro rfl
      rw [outside] at holds
      cases holds
    exact ⟨j, by simpa [State.move, Function.update_of_ne same] using holds⟩
  fresh := inv.fresh

theorem Inv.release (inv : Inv sharingCode s) {i : ι} {stage : Stage} (before : (s.calls i).inside = true)
    (noConnection : (s.calls i).connection = none) (after : stage.inside = false) (fits : s.Fits sharingCode i stage) :
    Inv sharingCode ({ s with owner := none }.move i stage) where
  lock j := by
    by_cases same : j = i
    · subst same
      simp [State.move, after]
    · have elsewhere : (s.calls j).inside ≠ true := fun inside => same (inv.same inside before)
      simp [State.move, Function.update_of_ne same, elsewhere]
  fits j := by
    by_cases same : j = i
    · subst same
      simp only [State.move, Function.update_self]
      exact fits
    · simp only [State.move, Function.update_of_ne same]
      exact inv.fits j
  live n isLive := by
    have holds := inv.connection_of_live before isLive
    rw [noConnection] at holds
    cases holds
  fresh := inv.fresh

theorem Inv.connect (inv : Inv sharingCode s) {i : ι} {k offered : ℕ} (stage : s.calls i = .attempting k) :
    Inv sharingCode (({ s with fresh := s.fresh + 1, offered := offered }.set s.fresh ⟨some i, true, none, none⟩).move i
      (.connected k s.fresh)) := by
  have before : (s.calls i).inside = true := by rw [stage]; rfl
  refine inv.step before rfl ?_ ?_ ?_ ?_
  · intro n answered
    have other : n ≠ s.fresh := by
      rintro rfl
      rw [inv.fresh s.fresh le_rfl] at answered
      exact answered rfl
    simp [other]
  · simp [State.Fits]
  · intro n live
    by_cases same : n = s.fresh
    · subst same
      rfl
    · rw [State.set_other _ same] at live
      have holds := inv.connection_of_live before live
      rw [stage] at holds
      cases holds
  · intro n unopened
    have later : s.fresh + 1 ≤ n := unopened
    rw [State.set_other _ (by omega)]
    exact inv.fresh n (by omega)

theorem Inv.write (inv : Inv sharingCode s) {i : ι} {k n : ℕ} {decoded : SharingCodeDecoded}
    (stage : s.calls i = .connected k n) (decodes : fromSharingCode (sharingCode i) = .ok decoded) :
    Inv sharingCode ((s.set n { s.connections n with request := some decoded.toPipeFormat }).move i (.written k n)) := by
  have before : (s.calls i).inside = true := by rw [stage]; rfl
  have opened : s.connections n = ⟨some i, true, none, none⟩ := by
    have fits := inv.fits i
    rw [stage] at fits
    exact fits
  refine inv.step before rfl ?_ ?_ ?_ ?_
  · intro m answered
    have other : m ≠ n := by
      rintro rfl
      rw [opened] at answered
      exact answered rfl
    simp [other]
  · exact ⟨decoded, decodes, by simp [opened], by simp⟩
  · intro m live
    by_cases same : m = n
    · subst same
      rfl
    · rw [State.set_other _ same] at live
      have holds := inv.connection_of_live before live
      rw [stage] at holds
      exact holds
  · intro m unopened
    have other : m ≠ n := by
      rintro rfl
      rw [inv.fresh m unopened] at opened
      cases opened
    rw [State.set_other _ other]
    exact inv.fresh m unopened

omit [DecidableEq ι] in
theorem Inv.answer (inv : Inv sharingCode s) {n : ℕ} {client : Option ι} {live : Bool} {request : Utf16}
    {response : Option Utf16} (asked : s.connections n = ⟨client, live, some request, none⟩) :
    Inv sharingCode (s.set n ⟨client, live, some request, some response⟩) := by
  have keeps : Keeps s (s.set n ⟨client, live, some request, some response⟩) := by
    intro m answered
    have other : m ≠ n := by
      rintro rfl
      rw [asked] at answered
      exact answered rfl
    simp [other]
  refine ⟨inv.lock, ?_, ?_, ?_⟩
  · intro j
    have fits := inv.fits j
    show State.Fits sharingCode _ j (s.calls j)
    cases stage : s.calls j with
    | connected k m =>
      rw [stage] at fits
      have other : m ≠ n := by
        rintro rfl
        rw [show s.connections m = ⟨some j, true, none, none⟩ from fits] at asked
        cases asked
      simpa [State.Fits, other] using fits
    | written k m =>
      rw [stage] at fits
      obtain ⟨decoded, decodes, client', same⟩ := fits
      refine ⟨decoded, decodes, ?_⟩
      by_cases here : m = n
      · subst here
        rw [asked] at client' same
        constructor
        · simpa using client'
        · simpa using same
      · simpa [here] using ⟨client', same⟩
    | read k m line =>
      rw [stage] at fits
      obtain ⟨decoded, decodes, client', same, answered⟩ := fits
      obtain ⟨clientKept, requestKept, responseKept⟩ := keeps m (by simp [answered])
      exact ⟨decoded, decodes, clientKept.trans client', requestKept.trans same, responseKept.trans answered⟩
    | returning m d =>
      rw [stage] at fits
      exact State.Own.kept fits keeps
    | returned m d =>
      rw [stage] at fits
      exact State.Own.kept fits keeps
    | _ => trivial
  · intro m isLive
    apply inv.live m
    by_cases here : m = n
    · subst here
      rw [asked]
      simpa using isLive
    · simpa [here] using isLive
  · intro m unopened
    have other : m ≠ n := by
      rintro rfl
      rw [inv.fresh m unopened] at asked
      cases asked
    simpa [other] using inv.fresh m unopened

omit [DecidableEq ι] in
/-- Nothing is said of the pipes on offer. -/
theorem Inv.pipes (inv : Inv sharingCode s) (offered : ℕ) : Inv sharingCode { s with offered := offered } :=
  ⟨inv.lock, inv.fits, inv.live, inv.fresh⟩

end

theorem inv_step (s : State ι) (l : Label ι) (t : State ι) (inv : Inv sharingCode s)
    (taken : next sharingCode s l = some t) : Inv sharingCode t := by
  cases l with
  | take i =>
    simp only [next, Option.ite_none_right_eq_some, Option.some.injEq] at taken
    obtain ⟨⟨outside, free⟩, rfl⟩ := taken
    exact inv.take outside free
  | connect i =>
    simp only [next] at taken
    split at taken
    · next k offered stage some =>
      cases taken
      exact inv.connect stage
    · cases taken
  | write i =>
    simp only [next] at taken
    split at taken
    · next k n decoded stage decodes =>
      cases taken
      exact inv.write stage decodes
    · cases taken
  | read i =>
    simp only [next] at taken
    split at taken
    · next k n stage =>
      obtain ⟨response, answered, rfl⟩ := Option.map_eq_some_iff.mp taken
      have fits := inv.fits i
      rw [stage] at fits
      obtain ⟨decoded, decodes, client, asked⟩ := fits
      exact inv.move (by rw [stage]; rfl) rfl (by rw [stage]; rfl) ⟨decoded, decodes, client, asked, answered⟩
    · cases taken
  | decode i =>
    simp only [next] at taken
    split at taken
    · next k n response stage =>
      have held : (s.calls i).connection = some n := by rw [stage]; rfl
      have inside : (s.calls i).inside = true := by rw [stage]; rfl
      have fits := inv.fits i
      rw [stage] at fits
      obtain ⟨decoded, decodes, client, asked, answered⟩ := fits
      split at taken
      · next d yields =>
        cases taken
        rw [← held]
        refine inv.dispose inside rfl ⟨decoded, response, decodes, ?_, ?_, ?_, yields⟩
        · rw [held]
          simpa [State.move, State.dispose_some] using client
        · rw [held]
          show (((s.dispose (some n)).move i _).connections n).request = some decoded.toPipeFormat
          simpa [State.move, State.dispose_some] using asked
        · rw [held]
          simpa [State.move, State.dispose_some] using answered
      · cases taken
        rw [← held]
        exact inv.dispose inside rfl trivial
    · cases taken
  | fail i e =>
    obtain ⟨k, stage, rfl⟩ := Option.map_eq_some_iff.mp taken
    exact inv.dispose (inside_of_trying stage) rfl trivial
  | sleep i =>
    simp only [next] at taken
    split at taken
    · next k e stage =>
      split at taken
      · cases taken
      · cases taken
        exact inv.move (by rw [stage]; rfl) rfl (by rw [stage]; rfl) trivial
    · cases taken
  | rethrow i e =>
    simp only [next] at taken
    split at taken
    · next k last stage =>
      split at taken
      · cases taken
      · cases taken
        exact inv.move (by rw [stage]; rfl) rfl (by rw [stage]; rfl) trivial
    · cases taken
  | wake i =>
    simp only [next] at taken
    split at taken
    · next k stage =>
      cases taken
      exact inv.move (by rw [stage]; rfl) rfl (by rw [stage]; rfl) trivial
    · cases taken
  | release i =>
    simp only [next] at taken
    split at taken
    · next n d stage =>
      cases taken
      have fits := inv.fits i
      rw [stage] at fits
      exact inv.release (by rw [stage]; rfl) (by rw [stage]; rfl) rfl fits
    · next e stage =>
      cases taken
      exact inv.release (by rw [stage]; rfl) (by rw [stage]; rfl) rfl trivial
    · cases taken
  | offer =>
    cases taken
    exact inv.pipes _
  | withdraw =>
    simp only [next] at taken
    split at taken
    · next offered _ =>
      cases taken
      exact inv.pipes offered
    · cases taken
  | answer n response =>
    simp only [next] at taken
    split at taken
    · next client live request asked =>
      cases taken
      exact inv.answer asked
    · cases taken

theorem Inv.safe {s : State ι} (inv : Inv sharingCode s) : Safe sharingCode s where
  oneByOne m n first second := by
    obtain ⟨i, holds⟩ := inv.live m first.1
    have held := inv.connection_of_live (inside_of_connection holds) second.1
    rw [holds] at held
    exact Option.some.inj held
  alone i j inside acts := by
    refine inv.same ?_ inside
    rcases acts with ⟨k, stage⟩ | connects | writes
    · rw [stage]
      rfl
    · simp only [next] at connects
      split at connects
      · next k offered stage some =>
        rw [stage]
        rfl
      · cases connects
    · simp only [next] at writes
      split at writes
      · next k n decoded stage decodes =>
        rw [stage]
        rfl
      · cases writes
  free outside := by
    cases owner : s.owner with
    | none => rfl
    | some i =>
      have inside := (inv.lock i).mpr owner
      rw [outside i] at inside
      cases inside
  own i n d stage := by
    have fits := inv.fits i
    rw [stage] at fits
    exact fits

variable (sharingCode) in
/-- Requests run one by one and answers never cross, in every state of every
    run of any number of calls. -/
theorem calls_one_by_one (labels : List (Label ι)) (s : State ι)
    (ran : run (next sharingCode) State.initial labels = some s) : Safe sharingCode s := by
  have inv : Inv sharingCode s := run_invariant (A := fun _ => True)
    (fun s l t inv _ taken => inv_step s l t inv taken) (inv_initial sharingCode) (fun _ _ => trivial) ran
  exact inv.safe

end

/-- A call whose first pipe breaks before the request is written, while a second
    call waits for the lock. -/
def sampleLabels : List (Label ℕ) :=
  [.take 0, .offer, .connect 0, .fail 0 ⟨.ioException, [], none⟩, .sleep 0, .wake 0, .offer, .connect 0, .write 0,
    .answer 1 (some (text "--demo http://replay1.valve.net/730/1.dem.bz2|1568000000")), .read 0, .decode 0, .release 0,
    .take 1, .offer, .connect 1, .write 1]

section
local instance : Collation := ordinal

theorem sampleLabels_safe : ∃ s,
    run (next fun _ => some (utf16 sampleCode.text)) State.initial sampleLabels = some s ∧
      Safe (fun _ => some (utf16 sampleCode.text)) s := by
  have runs : (run (next fun _ => some (utf16 sampleCode.text)) State.initial sampleLabels).isSome = true := by
    decide +kernel
  obtain ⟨s, ran⟩ := Option.isSome_iff_exists.mp runs
  exact ⟨s, ran, calls_one_by_one _ sampleLabels s ran⟩

end

end SteamworksService.Calls
