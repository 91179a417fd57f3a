import SteamworksService.DecodeResponse
import SteamworksService.FromSharingCode
import Mathlib.Data.List.Pairwise

/-!
# Fetching match data

`GetMatchData` as one caller sees it: up to three attempts, each on a pipe
connection of its own, whose outcomes the environment decides.
-/
namespace SteamworksService.GetMatchData
open DotNet Effects FromSharingCode DecodeResponse

/-! ## The method -/

/-- How the operations on the pipe of one attempt end. -/
structure PipeOutcome where
  connect : Except Exception Unit
  write : Except Exception Unit
  read : Except Exception (Option Utf16)

/-- What the code outside the service decides: the pipe of each attempt, the
    loggers, the publisher, and the text of a date in the current culture. -/
structure Environment where
  pipe : ℕ → PipeOutcome
  logger : Logger
  publisher : DemoInsertInstruction → Except Exception Unit
  dateText : DateTime → Utf16

def reconnectTimeout : ℕ := 30 * 1000
def maxAttempts : ℕ := 3

section
variable (env : Environment) (sharingCode : Option Utf16)

def log (level : LogLevel) (exception : Option ExceptionType) (message : Utf16) : Service Unit :=
  DecodeResponse.log env.logger ⟨.steamworksCommunicator, level, exception, message, []⟩

/-- The end of the `catch` block. -/
def pause (e : Exception) (failedAttempts : ℕ) : Service Unit := do
  log env .error (some e.type) (text "Failed message. Waiting " ++ decimal reconnectTimeout ++
    text "ms and trying again. Failed Attempts: [ " ++ decimal failedAttempts ++ text " ].")
  emit (.sleep reconnectTimeout)

variable [Collation]

/-- The `try` block. `null` formats as the empty string. -/
def attempt (failedAttempts : ℕ) : Service SteamworksData := do
  let code := sharingCode.getD []
  emit .connect
  perform (env.pipe failedAttempts).connect
  log env .information none (text "Writing SharingCode [ " ++ code ++ text " ] to pipe.")
  let decoded ← perform (fromSharingCode sharingCode)
  emit (.write decoded.toPipeFormat)
  perform (env.pipe failedAttempts).write
  let response ← perform (env.pipe failedAttempts).read
  emit (.read response)
  log env .information none
    (text "Received response [ " ++ response.getD [] ++ text " ] for [ " ++ code ++ text " ].")
  let demo ← decodeResponse env.logger response
  log env .information none (text "Decoded response yielding url [ " ++ demo.downloadUrl ++ text " ] and matchdate [ " ++
    env.dateText demo.matchDate ++ text " ] for [ " ++ code ++ text " ].")
  return demo

def getMatchData : Service SteamworksData := retry maxAttempts (attempt env sharingCode) (pause env) 0

/-! ## Its result -/

/-- How an attempt ends when the logger does not throw. -/
def attemptResult (failedAttempts : ℕ) : Except Exception SteamworksData := do
  (env.pipe failedAttempts).connect
  let _ ← fromSharingCode sharingCode
  (env.pipe failedAttempts).write
  let response ← (env.pipe failedAttempts).read
  result response

/-- The match data of the first of three attempts that yields some. -/
def firstData : Option SteamworksData :=
  (List.range 3).findSome? (fun i => (attemptResult env sharingCode i).toOption)

/-- That match data, or what the third attempt threw. -/
def fetchResult : Except Exception SteamworksData :=
  match firstData env sharingCode with
  | some d => .ok d
  | none => attemptResult env sharingCode 2

end

/-! ## Traces -/

/-- What holds of the events of a run with at most so many connections and requests. -/
structure Orderly (connects writes : ℕ) (events : List Event) : Prop where
  unpublished : published events = []
  connects : events.countP Event.isConnect ≤ connects
  writes : events.countP Event.isWrite ≤ writes

/-- No request is written after a response that decodes. -/
def Settled (events : List Event) : Prop :=
  events.Pairwise (fun earlier later => earlier.IsAnswer → later.isWrite = false)
/-- No response so far decodes. -/
def Unanswered (events : List Event) : Prop := ∀ event ∈ events, ¬ event.IsAnswer

theorem Unanswered.push {events : List Event} {event : Event} (holds : Unanswered events) (other : ¬ event.IsAnswer) :
    Unanswered (events ++ [event]) := by
  intro one member
  rcases List.mem_append.mp member with before | last
  · exact holds one before
  · rw [List.mem_singleton.mp last]
    exact other

theorem Settled.push {events : List Event} {event : Event} (holds : Settled events)
    (allowed : event.isWrite = false ∨ Unanswered events) : Settled (events ++ [event]) := by
  rw [Settled, List.pairwise_append]
  refine ⟨holds, by simp, ?_⟩
  intro earlier member later last answer
  rw [List.mem_singleton.mp last]
  rcases allowed with other | unanswered
  · exact other
  · exact absurd answer (unanswered earlier member)

section
variable {connects writes : ℕ} {events : List Event}

theorem Orderly.mono {connects' writes' : ℕ} (holds : Orderly connects writes events) (moreConnects : connects ≤ connects')
    (moreWrites : writes ≤ writes') : Orderly connects' writes' events :=
  ⟨holds.unpublished, holds.connects.trans moreConnects, holds.writes.trans moreWrites⟩

theorem Orderly.push (holds : Orderly connects writes events) (event : Event) (publish : published [event] = []) :
    Orderly (connects + event.isConnect.toNat) (writes + event.isWrite.toNat) (events ++ [event]) := by
  refine ⟨?_, ?_, ?_⟩
  · rw [published, List.filterMap_append, ← published, ← published, holds.unpublished, publish, List.append_nil]
  · rw [List.countP_append, List.countP_singleton]
    exact Nat.add_le_add holds.connects (by cases event.isConnect <;> simp)
  · rw [List.countP_append, List.countP_singleton]
    exact Nat.add_le_add holds.writes (by cases event.isWrite <;> simp)

/-- The state of affairs before an answer. A logger that throws can hide an
    answer from the retry loop. -/
def Trying (logger : Logger) (connects writes : ℕ) (events : List Event) : Prop :=
  Orderly connects writes events ∧ (logger.Quiet → Settled events ∧ Unanswered events)

theorem Trying.push {logger : Logger} (holds : Trying logger connects writes events) (event : Event)
    (publish : published [event] = []) (other : ¬ event.IsAnswer) :
    Trying logger (connects + event.isConnect.toNat) (writes + event.isWrite.toNat) (events ++ [event]) := by
  refine ⟨holds.1.push event publish, ?_⟩
  intro quiet
  obtain ⟨settled, unanswered⟩ := holds.2 quiet
  exact ⟨settled.push (.inr unanswered), unanswered.push other⟩

theorem trying_nil (logger : Logger) : Trying logger 0 0 [] :=
  ⟨⟨rfl, by simp, by simp⟩, fun _ => ⟨.nil, by simp [Unanswered]⟩⟩

theorem trying_stable (logger : Logger) (connects writes : ℕ) : LogStable (Trying logger connects writes) :=
  fun _ entry holds => holds.push (.log entry) rfl (by simp [Event.IsAnswer])

end

/-! ## Attempts -/

section
variable [Collation] (env : Environment) (sharingCode : Option Utf16)

/-- An attempt ends with its result, unless it is the logger that threw. -/
structure Ended (i : ℕ) (ended : Except Exception SteamworksData) (after : List Event) : Prop where
  orderly : Orderly (i + 1) (i + 1) after
  settled : env.logger.Quiet → Settled after ∧ ((∃ e, ended = .error e) → Unanswered after)
  result : ended = attemptResult env sharingCode i ∨ ∃ thrown, ended = .error thrown ∧ env.logger.Throws thrown

variable {env sharingCode}

theorem ended_failed {i connects writes : ℕ} {e : Exception} {after : List Event}
    (failed : attemptResult env sharingCode i = .error e) (holds : Trying env.logger connects writes after)
    (fewConnects : connects ≤ i + 1) (fewWrites : writes ≤ i + 1) : Ended env sharingCode i (.error e) after where
  orderly := holds.1.mono fewConnects fewWrites
  settled quiet := ⟨(holds.2 quiet).1, fun _ => (holds.2 quiet).2⟩
  result := .inl failed.symm

theorem ended_threw {i connects writes : ℕ} {e : Exception} {after : List Event}
    (threw : env.logger.Throws e) (holds : Orderly connects writes after)
    (fewConnects : connects ≤ i + 1) (fewWrites : writes ≤ i + 1) : Ended env sharingCode i (.error e) after where
  orderly := holds.mono fewConnects fewWrites
  settled quiet := absurd threw (quiet.not_throws e)
  result := .inr ⟨e, rfl, threw⟩

variable (env sharingCode) in
theorem attempt_triple (i : ℕ) :
    Triple (Trying env.logger i i) (attempt env sharingCode i) (Ended env sharingCode i) := by
  unfold attempt log
  refine triple_emit_bind (M := Trying env.logger (i + 1) i) ?_ ?_
  · intro t holds
    exact holds.push .connect rfl (by simp [Event.IsAnswer])
  refine triple_perform_bind ?_ ?_
  · intro e failed t holds
    exact ended_failed (by simp [attemptResult, failed, bind, Except.bind]) holds (by omega) (by omega)
  intro _ connects
  refine triple_log_bind env.logger (trying_stable env.logger (i + 1) i) ?_ ?_
  · intro e t holds threw
    exact ended_threw threw holds.1 (by omega) (by omega)
  refine triple_perform_bind ?_ ?_
  · intro e failed t holds
    exact ended_failed (by simp [attemptResult, connects, failed, bind, Except.bind]) holds (by omega) (by omega)
  intro decoded decodes
  refine triple_emit_bind (M := Trying env.logger (i + 1) (i + 1)) ?_ ?_
  · intro t holds
    exact holds.push (.write _) rfl (by simp [Event.IsAnswer])
  refine triple_perform_bind ?_ ?_
  · intro e failed t holds
    exact ended_failed (by simp [attemptResult, connects, decodes, failed, bind, Except.bind]) holds le_rfl le_rfl
  intro _ writes
  refine triple_perform_bind ?_ ?_
  · intro e failed t holds
    exact ended_failed (by simp [attemptResult, connects, decodes, writes, failed, bind, Except.bind]) holds le_rfl le_rfl
  intro response reads
  have same : attemptResult env sharingCode i = result response := by
    simp [attemptResult, connects, decodes, writes, reads, bind, Except.bind]
  -- From here on the trace has an answer exactly when the response decodes.
  let Read (t : List Event) := Orderly (i + 1) (i + 1) t ∧
    (env.logger.Quiet → Settled t ∧ ((∃ e, result response = .error e) → Unanswered t))
  have stable : LogStable Read := by
    intro t entry holds
    refine ⟨holds.1.push (.log entry) rfl, fun quiet => ⟨(holds.2 quiet).1.push (.inl rfl), fun failed => ?_⟩⟩
    exact ((holds.2 quiet).2 failed).push (by simp [Event.IsAnswer])
  refine triple_emit_bind (M := Read) ?_ ?_
  · intro t holds
    refine ⟨holds.1.push (.read response) rfl, fun quiet => ⟨(holds.2 quiet).1.push (.inl rfl), ?_⟩⟩
    rintro ⟨e, failed⟩
    apply (holds.2 quiet).2.push
    rintro ⟨_, d, read, decodes⟩
    cases read
    rw [failed] at decodes
    cases decodes
  refine triple_log_bind env.logger stable ?_ ?_
  · intro e t holds threw
    exact ended_threw threw holds.1 le_rfl le_rfl
  refine triple_bind (M := fun demo t => result response = .ok demo ∧ Read t)
    ((decodeResponse_triple env.logger stable response).weaken ?_) ?_
  · rintro ended t ⟨holds, rfl | ⟨failed, thrown, _, rfl, threw⟩⟩
    · cases decoded : result response with
      | ok demo => exact ⟨rfl, holds⟩
      | error e => exact ⟨holds.1, fun quiet => ⟨(holds.2 quiet).1, fun _ => (holds.2 quiet).2 ⟨e, decoded⟩⟩,
          .inl (by rw [same, decoded])⟩
    · exact ended_threw threw holds.1 le_rfl le_rfl
  intro demo
  have stable' : LogStable (fun t => result response = .ok demo ∧ Read t) :=
    fun t entry holds => ⟨holds.1, stable t entry holds.2⟩
  refine triple_log_bind env.logger stable' ?_ ?_
  · intro e t holds threw
    exact ended_threw threw holds.2.1 le_rfl le_rfl
  · apply triple_pure
    intro t holds
    exact ⟨holds.2.1, fun quiet => ⟨(holds.2.2 quiet).1, by simp⟩, .inl (by rw [same, holds.1])⟩

/-! ## All attempts -/

theorem firstData_eq_none (failed : ∀ i < 3, ∃ e, attemptResult env sharingCode i = .error e) :
    firstData env sharingCode = none := by
  rw [firstData, List.findSome?_eq_none_iff]
  intro i member
  obtain ⟨e, error⟩ := failed i (List.mem_range.mp member)
  rw [error]
  rfl

theorem firstData_eq_some {i : ℕ} {d : SteamworksData} (inside : i < 3)
    (failed : ∀ j < i, ∃ e, attemptResult env sharingCode j = .error e)
    (succeeded : attemptResult env sharingCode i = .ok d) : firstData env sharingCode = some d := by
  obtain ⟨k, total⟩ : ∃ k, 3 = i + (k + 1) := ⟨3 - i - 1, by omega⟩
  have before : (List.range i).findSome? (fun i => (attemptResult env sharingCode i).toOption) = none := by
    rw [List.findSome?_eq_none_iff]
    intro j member
    obtain ⟨e, error⟩ := failed j (List.mem_range.mp member)
    rw [error]
    rfl
  rw [firstData, total, List.range_add, List.findSome?_append, before, List.range_succ_eq_map, List.map_cons,
    List.findSome?_cons, Nat.add_zero, succeeded]
  rfl

variable (env sharingCode) in
/-- How `GetMatchData` ends. -/
structure Fetched (ended : Except Exception SteamworksData) (after : List Event) : Prop where
  orderly : Orderly maxAttempts maxAttempts after
  settled : env.logger.Quiet → Settled after
  result : env.logger.Quiet → ended = fetchResult env sharingCode
  source : (∃ i < maxAttempts, ended = attemptResult env sharingCode i) ∨
    ∃ thrown, ended = .error thrown ∧ env.logger.Throws thrown

theorem getMatchData_triple :
    Triple (Trying env.logger 0 0) (getMatchData env sharingCode) (Fetched env sharingCode) := by
  let AllFailed (i : ℕ) := env.logger.Quiet → ∀ j < i, ∃ e, attemptResult env sharingCode j = .error e
  let I (i : ℕ) (t : List Event) := i < maxAttempts ∧ Trying env.logger i i t ∧ AllFailed i
  let Failed (i : ℕ) (e : Exception) (t : List Event) := Trying env.logger (i + 1) (i + 1) t ∧ AllFailed (i + 1)
  have started : Triple (I 0) (getMatchData env sharingCode) (Fetched env sharingCode) := by
    refine triple_retry (F := Failed) ?_ ?_ 0
    · rintro i before ⟨inside, trying, failed⟩
      have ended := attempt_triple env sharingCode i before trying
      have few : i + 1 ≤ maxAttempts := inside
      have source : (∃ j < maxAttempts, outcome (attempt env sharingCode i) before = attemptResult env sharingCode j) ∨
          ∃ thrown, outcome (attempt env sharingCode i) before = .error thrown ∧ env.logger.Throws thrown :=
        ended.result.imp_left (fun same => ⟨i, inside, same⟩)
      have exact' : env.logger.Quiet → outcome (attempt env sharingCode i) before = attemptResult env sharingCode i := by
        intro quiet
        rcases ended.result with same | ⟨thrown, _, threw⟩
        · exact same
        · exact absurd threw (quiet.not_throws thrown)
      cases result : outcome (attempt env sharingCode i) before with
      | ok d =>
        rw [result] at ended source exact'
        refine ⟨ended.orderly.mono few few, fun quiet => (ended.settled quiet).1, ?_, source⟩
        intro quiet
        rw [fetchResult, firstData_eq_some inside (failed quiet) (exact' quiet).symm]
      | error e =>
        rw [result] at ended source exact'
        have now : AllFailed (i + 1) := by
          intro quiet j below
          rcases Nat.lt_succ_iff_lt_or_eq.mp below with earlier | rfl
          · exact failed quiet j earlier
          · exact ⟨e, (exact' quiet).symm⟩
        by_cases last : i + 1 ≥ maxAttempts
        · have third : i = 2 := by
            unfold maxAttempts at inside last
            omega
          simp only [ends, if_pos last]
          refine ⟨ended.orderly.mono few few, fun quiet => (ended.settled quiet).1, ?_, source⟩
          intro quiet
          rw [fetchResult, firstData_eq_none (fun j below => now quiet j (by omega)), exact' quiet, third]
        · simp only [ends, if_neg last]
          exact ⟨⟨ended.orderly, fun quiet => ⟨(ended.settled quiet).1, (ended.settled quiet).2 ⟨e, rfl⟩⟩⟩, now⟩
    · intro i e more
      have stable : LogStable (Failed i e) :=
        fun t entry holds => ⟨trying_stable env.logger (i + 1) (i + 1) t entry holds.1, holds.2⟩
      unfold pause log
      refine triple_log_bind env.logger stable ?_ ?_
      · intro thrown t holds threw
        exact ⟨holds.1.1.mono more.le more.le, fun quiet => absurd threw (quiet.not_throws thrown),
          fun quiet => absurd threw (quiet.not_throws thrown), .inr ⟨thrown, rfl, threw⟩⟩
      · apply triple_emit
        intro t holds
        exact ⟨more, holds.1.push (.sleep _) rfl (by simp [Event.IsAnswer]), holds.2⟩
  apply started.strengthen
  intro before trying
  exact ⟨by decide, trying, fun _ j below => absurd below (Nat.not_lt_zero j)⟩

end

end SteamworksService.GetMatchData
