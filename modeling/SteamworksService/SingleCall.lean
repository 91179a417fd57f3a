import SteamworksService.Turns

/-!
# A call by itself

`GetMatchData` as the program text has it, against the machine of the concurrent
calls: whatever its environment is, the method does, from the lock on, what some
steps of the machine do, and ends as they end.
-/
namespace SteamworksService.SingleCall
open DotNet Effects FromSharingCode DecodeResponse GetMatchData Runs Calls Turns

/-! ## What an attempt does -/

def isLog : Event → Bool
  | .log _ => true
  | _ => false

/-- The events that are not messages to a logger. -/
def acts (events : List Event) : List Event := events.filter (fun event => !isLog event)

theorem acts_push {events : List Event} {event : Event} (shown : isLog event = false) :
    acts (events ++ [event]) = acts events ++ [event] := by
  simp [acts, shown]

theorem acts_log (events : List Event) (entry : LogEntry) : acts (events ++ [.log entry]) = acts events := by
  simp [acts, isLog]

section
variable [Collation]

/-- How far an attempt may come. -/
inductive Attempted (sharingCode : Option Utf16) (before : List Event) : Except Exception SteamworksData → List Event → Prop
  | connecting (e : Exception) : Attempted sharingCode before (.error e) (before ++ [.connect])
  | writing {decoded : SharingCodeDecoded} (decodes : fromSharingCode sharingCode = .ok decoded) (e : Exception) :
      Attempted sharingCode before (.error e) (before ++ [.connect] ++ [.write decoded.toPipeFormat])
  | reading {decoded : SharingCodeDecoded} (decodes : fromSharingCode sharingCode = .ok decoded)
      (response : Option Utf16) (e : Exception) :
      Attempted sharingCode before (.error e) (before ++ [.connect] ++ [.write decoded.toPipeFormat] ++ [.read response])
  | done {decoded : SharingCodeDecoded} (decodes : fromSharingCode sharingCode = .ok decoded)
      {response : Option Utf16} {d : SteamworksData} (yields : result response = .ok d) :
      Attempted sharingCode before (.ok d) (before ++ [.connect] ++ [.write decoded.toPipeFormat] ++ [.read response])

end

theorem acts_stable (before : List Event) : LogStable (fun t => acts t = before) :=
  fun t entry holds => (acts_log t entry).trans holds

theorem acts_shown {sofar t : List Event} {event : Event} (shown : isLog event = false) (holds : acts t = sofar) :
    acts (t ++ [event]) = sofar ++ [event] := by
  rw [acts_push shown, holds]

theorem attempt_attempted [Collation] (env : Environment) (sharingCode : Option Utf16) (i : ℕ) (before : List Event) :
    Triple (fun t => acts t = before) (attempt env sharingCode i)
      (fun ended after => Attempted sharingCode before ended (acts after)) := by
  unfold attempt GetMatchData.log
  refine triple_emit_bind (M := fun t => acts t = before ++ [.connect]) (fun t => acts_shown rfl) ?_
  -- until the code is decoded
  have connecting : ∀ e t, acts t = before ++ [.connect] → Attempted sharingCode before (.error e) (acts t) := by
    intro e t holds
    rw [holds]
    exact .connecting e
  refine triple_perform_bind (fun e _ => connecting e) ?_
  intro _ _
  refine triple_log_bind env.logger (acts_stable _) (fun e t holds _ => connecting e t holds) ?_
  refine triple_perform_bind (fun e _ => connecting e) ?_
  intro decoded decodes
  refine triple_emit_bind (M := fun t => acts t = before ++ [.connect] ++ [.write decoded.toPipeFormat])
    (fun t => acts_shown rfl) ?_
  -- until there is a response
  have writing : ∀ e t, acts t = before ++ [.connect] ++ [.write decoded.toPipeFormat] →
      Attempted sharingCode before (.error e) (acts t) := by
    intro e t holds
    rw [holds]
    exact .writing decodes e
  refine triple_perform_bind (fun e _ => writing e) ?_
  intro _ _
  refine triple_perform_bind (fun e _ => writing e) ?_
  intro response _
  refine triple_emit_bind
    (M := fun t => acts t = before ++ [.connect] ++ [.write decoded.toPipeFormat] ++ [.read response])
    (fun t => acts_shown rfl) ?_
  have reading : ∀ e t, acts t = before ++ [.connect] ++ [.write decoded.toPipeFormat] ++ [.read response] →
      Attempted sharingCode before (.error e) (acts t) := by
    intro e t holds
    rw [holds]
    exact .reading decodes response e
  refine triple_log_bind env.logger (acts_stable _) (fun e t holds _ => reading e t holds) ?_
  refine triple_bind (M := fun demo t => result response = .ok demo ∧
      acts t = before ++ [.connect] ++ [.write decoded.toPipeFormat] ++ [.read response])
    ((decodeResponse_triple env.logger (acts_stable _) response).weaken ?_) ?_
  · rintro ended t ⟨holds, rfl | ⟨_, thrown, _, rfl, _⟩⟩
    · cases yields : result response with
      | ok demo => exact ⟨rfl, holds⟩
      | error e => exact reading e t holds
    · exact reading thrown t holds
  intro demo
  have stable : LogStable (fun t => result response = .ok demo ∧
      acts t = before ++ [.connect] ++ [.write decoded.toPipeFormat] ++ [.read response]) :=
    fun t entry holds => ⟨holds.1, acts_stable _ t entry holds.2⟩
  refine triple_log_bind env.logger stable ?_ ?_
  · intro e t holds _
    exact reading e t holds.2
  · apply triple_pure
    intro t holds
    rw [holds.2]
    exact .done decodes holds.1

/-! ## What the machine does -/

section
variable {ι : Type} [DecidableEq ι] [Collation] (sharingCode : ι → Option Utf16)

/-- The event that a step of the machine stands for. An attempt that fails before
    it has a connection has tried to get one. -/
def observe (s : State ι) : Label ι → Option Event
  | .connect _ => some .connect
  | .write i => (fromSharingCode (sharingCode i)).toOption.map (fun decoded => .write decoded.toPipeFormat)
  | .read i =>
    match s.calls i with
    | .written _ n => (s.connections n).response.map .read
    | _ => none
  | .fail i _ =>
    match s.calls i with
    | .attempting _ => some .connect
    | _ => none
  | .sleep _ => some (.sleep reconnectTimeout)
  | .take _ | .decode _ | .rethrow _ _ | .wake _ | .release _ | .offer | .withdraw | .answer _ _ => none

/-- By steps of its own and of the server, a call that keeps the lock comes to a
    stage, and these events show. -/
def Goes (s : State ι) (i : ι) (events : List Event) (stage : Stage) (t : State ι) : Prop :=
  ∃ labels, (∀ l ∈ labels, caller l = some i ∨ caller l = none) ∧ run (next sharingCode) s labels = some t ∧
    Runs.trace (next sharingCode) (observe sharingCode) s labels = events ∧
    t.calls = Function.update s.calls i stage ∧ t.owner = s.owner

variable {sharingCode} {s m t : State ι} {i : ι} {events more : List Event} {stage stage' : Stage}

theorem Goes.refl (stands : s.calls i = stage) : Goes sharingCode s i [] stage s :=
  ⟨[], by simp, rfl, rfl, by rw [← stands, Function.update_eq_self], rfl⟩

theorem Goes.single {l : Label ι} (who : caller l = some i ∨ caller l = none) (taken : next sharingCode s l = some t)
    (calls : t.calls = Function.update s.calls i stage) (owner : t.owner = s.owner) :
    Goes sharingCode s i (observe sharingCode s l).toList stage t := by
  refine ⟨[l], by simpa using who, run_cons.mpr ⟨t, taken, rfl⟩, ?_, calls, owner⟩
  rw [Runs.trace, taken]
  simp [Runs.trace]

theorem Goes.append (first : Goes sharingCode s i events stage m) (second : Goes sharingCode m i more stage' t) :
    Goes sharingCode s i (events ++ more) stage' t := by
  obtain ⟨ls, own, ran, rfl, calls, owner⟩ := first
  obtain ⟨ms, own', ran', rfl, calls', owner'⟩ := second
  refine ⟨ls ++ ms, ?_, run_append ran ran', trace_append _ ran, ?_, owner'.trans owner⟩
  · intro l member
    rcases List.mem_append.mp member with before | after
    · exact own l before
    · exact own' l after
  · rw [calls', calls, Function.update_idem]

theorem Goes.stands (goes : Goes sharingCode s i events stage t) : t.calls i = stage := by
  obtain ⟨_, _, _, _, calls, _⟩ := goes
  rw [calls, Function.update_self]

variable (sharingCode) in
theorem goes_connect {k : ℕ} (stands : s.calls i = .attempting k) : ∃ n t,
    Goes sharingCode s i [.connect] (.connected k n) t ∧ t.connections n = ⟨some i, true, none, none⟩ := by
  -- the server offers a pipe for it
  let serving := { s with offered := s.offered + 1 }
  let opened := { s with fresh := s.fresh + 1 }.set s.fresh ⟨some i, true, none, none⟩
  have offers : next sharingCode s .offer = some serving := rfl
  have stands' : serving.calls i = .attempting k := stands
  have pipe : serving.offered = s.offered + 1 := rfl
  have taken : next sharingCode serving (.connect i) = some (opened.move i (.connected k s.fresh)) := by
    simp only [next, stands', pipe]
    rfl
  have first : Goes sharingCode s i _ (.attempting k) serving :=
    .single (.inr rfl) offers (by rw [← stands, Function.update_eq_self]) rfl
  have second : Goes sharingCode serving i _ (.connected k s.fresh) _ := .single (.inl rfl) taken rfl rfl
  exact ⟨s.fresh, _, first.append second, State.set_self { s with fresh := s.fresh + 1 }⟩

theorem goes_write {k n : ℕ} {decoded : SharingCodeDecoded} (stands : s.calls i = .connected k n)
    (opened : s.connections n = ⟨some i, true, none, none⟩) (decodes : fromSharingCode (sharingCode i) = .ok decoded) :
    ∃ t, Goes sharingCode s i [.write decoded.toPipeFormat] (.written k n) t ∧
      t.connections n = ⟨some i, true, some decoded.toPipeFormat, none⟩ := by
  let asked := s.set n ⟨some i, true, some decoded.toPipeFormat, none⟩
  have taken : next sharingCode s (.write i) = some (asked.move i (.written k n)) := by
    simp only [next, stands, decodes, opened, asked]
  have goes : Goes sharingCode s i _ (.written k n) _ := .single (.inl rfl) taken rfl rfl
  rw [observe, decodes] at goes
  exact ⟨_, goes, State.set_self s⟩

theorem goes_read {k n : ℕ} {line : Utf16} (stands : s.calls i = .written k n)
    (asked : s.connections n = ⟨some i, true, some line, none⟩) (response : Option Utf16) :
    ∃ t, Goes sharingCode s i [.read response] (.read k n response) t := by
  let answered := s.set n ⟨some i, true, some line, some response⟩
  have stands' : answered.calls i = .written k n := stands
  have found : (answered.connections n).response = some response := by simp [answered]
  have given : next sharingCode s (.answer n response) = some answered := by
    simp only [next, asked, answered]
  have taken : next sharingCode answered (.read i) = some (answered.move i (.read k n response)) := by
    simp only [next, stands', found, Option.map_some]
  have first : Goes sharingCode s i _ (.written k n) _ :=
    .single (.inr rfl) given (by rw [← stands, Function.update_eq_self]; rfl) rfl
  have second : Goes sharingCode answered i _ (.read k n response) _ := .single (.inl rfl) taken rfl rfl
  simp only [observe, stands', found, Option.map_some] at second
  exact ⟨_, first.append second⟩

theorem goes_decode {k n : ℕ} {response : Option Utf16} {d : SteamworksData} (stands : s.calls i = .read k n response)
    (yields : result response = .ok d) : ∃ t, Goes sharingCode s i [] (.returning n d) t := by
  have taken : next sharingCode s (.decode i) = some ((s.dispose (some n)).move i (.returning n d)) := by
    simp only [next, stands, yields]
  exact ⟨_, .single (.inl rfl) taken rfl rfl⟩

variable (sharingCode) in
theorem goes_fail {k : ℕ} (stands : s.calls i = stage) (trying : stage.trying = some k) (e : Exception) :
    ∃ t, Goes sharingCode s i (if stage = .attempting k then [.connect] else []) (.failed (k + 1) e) t := by
  refine ⟨(s.dispose stage.connection).move i (.failed (k + 1) e), ?_⟩
  have taken : next sharingCode s (.fail i e) = some ((s.dispose stage.connection).move i (.failed (k + 1) e)) := by
    simp only [next, stands, trying, Option.map_some]
  have goes : Goes sharingCode s i _ (.failed (k + 1) e) _ :=
    .single (.inl rfl) taken (by rw [State.move, dispose_calls]) (by cases stage.connection <;> rfl)
  cases stage with
  | attempting j =>
    cases trying
    simpa [observe, stands] using goes
  | connected j n | written j n | read j n r => simpa [observe, stands] using goes
  | _ => cases trying

variable (sharingCode) in
theorem goes_rethrow {k : ℕ} {last e : Exception} (stands : s.calls i = .failed k last)
    (allowed : k < maxAttempts ∨ e = last) : ∃ t, Goes sharingCode s i [] (.rethrowing e) t := by
  have taken : next sharingCode s (.rethrow i e) = some (s.move i (.rethrowing e)) := by
    have permitted : ¬ (k ≥ maxAttempts ∧ e ≠ last) := by
      rintro ⟨spent, other⟩
      rcases allowed with more | same
      · omega
      · exact other same
    simp only [next, stands, if_neg permitted]
  exact ⟨_, .single (.inl rfl) taken rfl rfl⟩

variable (sharingCode) in
theorem goes_sleep {k : ℕ} {e : Exception} (stands : s.calls i = .failed k e) (more : k < maxAttempts) :
    ∃ t, Goes sharingCode s i [.sleep reconnectTimeout] (.attempting k) t := by
  have asleep : next sharingCode s (.sleep i) = some (s.move i (.sleeping k)) := by
    simp only [next, stands, if_neg (show ¬ k ≥ maxAttempts by omega)]
  have first : Goes sharingCode s i _ (.sleeping k) _ := .single (.inl rfl) asleep rfl rfl
  have awake : next sharingCode (s.move i (.sleeping k)) (.wake i) =
      some ((s.move i (.sleeping k)).move i (.attempting k)) := by
    simp only [next, first.stands]
  exact ⟨_, first.append (.single (.inl rfl) awake rfl rfl)⟩

/-! ## The method -/

/-- The stage behind an attempt that had this connection. -/
def reached (failedAttempts n : ℕ) : Except Exception SteamworksData → Stage
  | .ok d => .returning n d
  | .error e => .failed (failedAttempts + 1) e

theorem attempt_goes {k : ℕ} {before after : List Event} {result : Except Exception SteamworksData}
    (stands : s.calls i = .attempting k) (attempted : Attempted (sharingCode i) before result after) :
    ∃ n events t, after = before ++ events ∧ Goes sharingCode s i events (reached k n result) t := by
  cases attempted with
  | connecting e =>
    obtain ⟨t, fails⟩ := goes_fail sharingCode stands rfl e
    rw [if_pos rfl] at fails
    exact ⟨0, _, t, rfl, fails⟩
  | writing decodes e =>
    obtain ⟨n, m, connects, opened⟩ := goes_connect sharingCode stands
    obtain ⟨m', writes, _⟩ := goes_write connects.stands opened decodes
    obtain ⟨t, fails⟩ := goes_fail sharingCode writes.stands rfl e
    exact ⟨n, _, t, by simp, (connects.append writes).append fails⟩
  | reading decodes response e =>
    obtain ⟨n, m, connects, opened⟩ := goes_connect sharingCode stands
    obtain ⟨m', writes, asked⟩ := goes_write connects.stands opened decodes
    obtain ⟨m'', reads⟩ := goes_read writes.stands asked response
    obtain ⟨t, fails⟩ := goes_fail sharingCode reads.stands rfl e
    exact ⟨n, _, t, by simp, ((connects.append writes).append reads).append fails⟩
  | @done decoded decodes response d yields =>
    obtain ⟨n, m, connects, opened⟩ := goes_connect sharingCode stands
    obtain ⟨m', writes, asked⟩ := goes_write connects.stands opened decodes
    obtain ⟨m'', reads⟩ := goes_read writes.stands asked response
    obtain ⟨t, returns⟩ := goes_decode reads.stands yields
    exact ⟨n, _, t, by simp, ((connects.append writes).append reads).append returns⟩

variable (sharingCode s i) in
/-- The machine can come from `s` to the stage and show what the events amount to. -/
def Comes (stage : Stage) (events : List Event) : Prop := ∃ t, Goes sharingCode s i (acts events) stage t

theorem Comes.extend {before after : List Event} (comes : Comes sharingCode s i stage before)
    (goes : ∀ m, m.calls i = stage → ∃ events t, acts after = acts before ++ events ∧ Goes sharingCode m i events stage' t) :
    Comes sharingCode s i stage' after := by
  obtain ⟨m, first⟩ := comes
  obtain ⟨events, t, seen, second⟩ := goes m first.stands
  exact ⟨t, by rw [seen]; exact first.append second⟩

theorem comes_stable : LogStable (Comes sharingCode s i stage) := by
  rintro before entry ⟨t, goes⟩
  exact ⟨t, by rw [acts_log]; exact goes⟩

variable (sharingCode) in
theorem getMatchData_comes (env : Environment) : Triple (Comes sharingCode s i (.attempting 0))
    (getMatchData env (sharingCode i))
    (ends (fun d after => ∃ n, Comes sharingCode s i (.returning n d) after) (fun e => Comes sharingCode s i (.rethrowing e))) := by
  unfold getMatchData
  refine triple_retry (I := fun k => Comes sharingCode s i (.attempting k))
    (F := fun k e => Comes sharingCode s i (.failed (k + 1) e)) ?_ ?_ 0
  · intro k before comes
    have attempted := attempt_attempted env (sharingCode i) k (acts before) before rfl
    have reaches : ∃ n, Comes sharingCode s i (reached k n (outcome (attempt env (sharingCode i) k) before))
        (Effects.trace (attempt env (sharingCode i) k) before) := by
      obtain ⟨m, first⟩ := comes
      obtain ⟨n, events, t, seen, second⟩ := attempt_goes first.stands attempted
      exact ⟨n, t, by rw [seen]; exact first.append second⟩
    obtain ⟨n, reaches⟩ := reaches
    cases result : outcome (attempt env (sharingCode i) k) before with
    | ok d =>
      rw [result] at reaches
      exact ⟨n, reaches⟩
    | error e =>
      rw [result] at reaches
      by_cases last : k + 1 ≥ maxAttempts
      · simp only [ends, if_pos last]
        refine reaches.extend (fun m stands => ?_)
        obtain ⟨t, goes⟩ := goes_rethrow sharingCode stands (.inr rfl)
        exact ⟨[], t, by simp, goes⟩
      · simp only [ends, if_neg last]
        exact reaches
  · intro k e more
    unfold pause GetMatchData.log
    refine triple_log_bind env.logger comes_stable ?_ ?_
    · intro thrown before comes _
      refine comes.extend (fun m stands => ?_)
      obtain ⟨t, goes⟩ := goes_rethrow sharingCode stands (.inl more)
      exact ⟨[], t, by simp, goes⟩
    · apply triple_emit
      intro before comes
      refine comes.extend (fun m stands => ?_)
      obtain ⟨t, goes⟩ := goes_sleep sharingCode stands more
      exact ⟨_, t, acts_push rfl, goes⟩

variable (sharingCode) in
/-- What the method does and how it ends is open to a call that finds the lock free. -/
theorem call_simulated (env : Environment) (s : State ι) (i : ι) (outside : s.calls i = .outside) (free : s.owner = none) :
    ∃ labels t, (∀ l ∈ labels, caller l = some i ∨ caller l = none) ∧ run (next sharingCode) s labels = some t ∧
      Runs.trace (next sharingCode) (observe sharingCode) s labels =
        acts (Effects.trace (getMatchData env (sharingCode i)) []) ∧
      (∃ stage, t.calls = Function.update s.calls i stage ∧
        stage.ended = some (outcome (getMatchData env (sharingCode i)) [])) ∧ t.owner = none := by
  let locked := { s with owner := some i }.move i (.attempting 0)
  have takes : next sharingCode s (.take i) = some locked := by
    simp only [next, outside, free, and_self, if_true, locked]
  have stands : locked.calls i = .attempting 0 := by simp [locked, State.move]
  have comes := getMatchData_comes sharingCode env [] ⟨locked, Goes.refl stands⟩
  -- the lock is left with what the method returns or throws
  have leaves : ∃ stage stage' m, Goes sharingCode locked i (acts (Effects.trace (getMatchData env (sharingCode i)) []))
      stage m ∧ next sharingCode m (.release i) = some ({ m with owner := none }.move i stage') ∧
      stage'.ended = some (outcome (getMatchData env (sharingCode i)) []) := by
    cases result : outcome (getMatchData env (sharingCode i)) [] with
    | ok d =>
      rw [result] at comes
      obtain ⟨n, m, goes⟩ := comes
      exact ⟨_, .returned n d, m, goes, by simp only [next, goes.stands], rfl⟩
    | error e =>
      rw [result] at comes
      obtain ⟨m, goes⟩ := comes
      exact ⟨_, .threw e, m, goes, by simp only [next, goes.stands], rfl⟩
  obtain ⟨stage, stage', m, ⟨labels, own, ran, seen, calls, owner⟩, releases, ends⟩ := leaves
  have started : run (next sharingCode) s [.take i] = some locked := run_cons.mpr ⟨locked, takes, rfl⟩
  have released : run (next sharingCode) m [.release i] = some _ := run_cons.mpr ⟨_, releases, rfl⟩
  have finished := run_append ran released
  refine ⟨[.take i] ++ (labels ++ [.release i]), _, ?_, run_append started finished, ?_, ⟨stage', ?_, ends⟩, rfl⟩
  · intro l member
    simp only [List.mem_append, List.mem_singleton] at member
    rcases member with rfl | member | rfl
    · exact .inl rfl
    · exact own l member
    · exact .inl rfl
  · rw [trace_append _ started, trace_append _ ran, seen, Runs.trace, takes, Runs.trace, releases]
    simp [observe, Runs.trace]
  · show Function.update m.calls i _ = _
    rw [calls, Function.update_idem]
    exact Function.update_idem _ _ _

variable (sharingCode) in
theorem calls_simulated_from (calls : List (ι × Environment)) (distinct : (calls.map Prod.fst).Nodup) (s : State ι)
    (outside : ∀ c ∈ calls, s.calls c.1 = .outside) (free : s.owner = none) :
    ∃ labels t, run (next sharingCode) s labels = some t ∧
      Runs.trace (next sharingCode) (observe sharingCode) s labels =
        calls.flatMap (fun c => acts (Effects.trace (getMatchData c.2 (sharingCode c.1)) [])) ∧
      (∀ c ∈ calls, (t.calls c.1).ended = some (outcome (getMatchData c.2 (sharingCode c.1)) [])) ∧
      ∀ j, (∀ c ∈ calls, c.1 ≠ j) → t.calls j = s.calls j := by
  induction calls generalizing s with
  | nil => exact ⟨[], s, rfl, rfl, by simp, fun _ _ => rfl⟩
  | cons c calls ih =>
    rw [List.map_cons, List.nodup_cons] at distinct
    obtain ⟨new, distinct⟩ := distinct
    have others : ∀ c' ∈ calls, c'.1 ≠ c.1 := by
      intro c' member same
      exact new (List.mem_map.mpr ⟨c', member, same⟩)
    obtain ⟨ls, m, _, ran, seen, ⟨stage, moved, ends⟩, free'⟩ :=
      call_simulated sharingCode c.2 s c.1 (outside c (by simp)) free
    have outside' : ∀ c' ∈ calls, m.calls c'.1 = .outside := by
      intro c' member
      rw [moved, Function.update_of_ne (others c' member)]
      exact outside c' (by simp [member])
    obtain ⟨ms, t, ran', seen', each, rest⟩ := ih distinct m outside' free'
    refine ⟨ls ++ ms, t, run_append ran ran', ?_, ?_, ?_⟩
    · rw [trace_append _ ran, seen, seen', List.flatMap_cons]
    · intro c' member
      rcases List.mem_cons.mp member with rfl | later
      · rw [rest c'.1 others, moved, Function.update_self, ends]
      · exact each c' later
    · intro j different
      have other : j ≠ c.1 := (different c (by simp)).symm
      rw [rest j (fun c' member => different c' (by simp [member])), moved, Function.update_of_ne other]

variable (sharingCode) in
/-- Calls one after the other, each in an environment of its own, are a run of the
    machine: it shows what they do, and every call ends in it as it does by itself. -/
theorem calls_simulated (calls : List (ι × Environment)) (distinct : (calls.map Prod.fst).Nodup) :
    ∃ labels t, run (next sharingCode) State.initial labels = some t ∧
      Runs.trace (next sharingCode) (observe sharingCode) State.initial labels =
        calls.flatMap (fun c => acts (Effects.trace (getMatchData c.2 (sharingCode c.1)) [])) ∧
      ∀ c ∈ calls, (t.calls c.1).ended = some (outcome (getMatchData c.2 (sharingCode c.1)) []) := by
  obtain ⟨labels, t, ran, seen, each, _⟩ :=
    calls_simulated_from sharingCode calls distinct State.initial (fun _ _ => rfl) rfl
  exact ⟨labels, t, ran, seen, each⟩

end

/-- A server that answers at once, and one whose pipes break under the request. -/
def sampleCalls : List (ℕ × Environment) :=
  [(0, ⟨fun _ => ⟨.ok (), .ok (), .ok (some (text "--demo http://replay1.valve.net/730/1.dem.bz2|1568000000"))⟩,
      fun _ _ => none, fun _ => .ok (), fun _ => []⟩),
    (1, ⟨fun _ => ⟨.ok (), .error ⟨.ioException, [], none⟩, .ok none⟩, fun _ _ => none, fun _ => .ok (), fun _ => []⟩)]

section
local instance : Collation := ordinal

theorem sampleCalls_simulated : ∃ labels t,
    run (next fun _ => some (utf16 sampleCode.text)) State.initial labels = some t ∧
      Runs.trace (next fun _ => some (utf16 sampleCode.text)) (observe fun _ => some (utf16 sampleCode.text)) State.initial
          labels =
        sampleCalls.flatMap (fun c => acts (Effects.trace (getMatchData c.2 (some (utf16 sampleCode.text))) [])) ∧
      ∀ c ∈ sampleCalls, (t.calls c.1).ended = some (outcome (getMatchData c.2 (some (utf16 sampleCode.text))) []) :=
  calls_simulated (fun _ => some (utf16 sampleCode.text)) sampleCalls (by decide)

end

end SteamworksService.SingleCall
