import SteamworksService.DotNet
import SteamworksService.Effects

/-!
# Responses in the service

What the service does to the outside, as events, and `DecodeResponse`: match
data from a response line, or one of three exceptions.
-/
namespace SteamworksService.DecodeResponse
open DotNet Effects

/-! ## Data -/

structure SteamworksData where
  downloadUrl : Utf16
  matchDate : DateTime
  deriving DecidableEq, Repr

/-- The message from the gatherer. The queue library's types of the last two
    fields are not the service's own; it passes their values on. -/
structure SharingCodeInstruction where
  sharingCode : Option Utf16
  uploaderId : ℤ
  uploadType : ℤ
  deriving DecidableEq, Repr

inductive Source
  | valve
  | other (name : ℕ)
  deriving DecidableEq, Repr

structure DemoInsertInstruction where
  downloadUrl : Utf16
  matchDate : DateTime
  uploaderId : ℤ
  uploadType : ℤ
  source : Source
  deriving DecidableEq, Repr

/-! ## Events -/

/-- The class whose logger is called. -/
inductive Category
  | steamworksCommunicator
  | gathererConsumer
  deriving DecidableEq, Repr

inductive LogLevel
  | information
  | warning
  | error
  deriving DecidableEq, Repr

/-- A call of a logger: the exception it is told about, the message and the
    arguments of the message as a template. -/
structure LogEntry where
  category : Category
  level : LogLevel
  exception : Option ExceptionType
  message : Utf16
  args : List ExceptionType
  deriving DecidableEq, Repr

inductive Event
  | connect
  | write (request : Utf16)
  | read (response : Option Utf16)
  | sleep (milliseconds : ℕ)
  | log (entry : LogEntry)
  | publish (instruction : DemoInsertInstruction)
  deriving DecidableEq, Repr

def Event.isConnect : Event → Bool
  | .connect => true
  | _ => false
def Event.isWrite : Event → Bool
  | .write _ => true
  | _ => false
/-- The instructions that `PublishMessage` was called with. -/
def published (events : List Event) : List DemoInsertInstruction :=
  events.filterMap fun
    | .publish instruction => some instruction
    | _ => none

abbrev Service := Program Event Exception

/-- What a call of the logger throws, if anything, after the events so far. -/
abbrev Logger := List Event → LogEntry → Option Exception

def log (logger : Logger) (entry : LogEntry) : Service Unit := fun before =>
  match logger before entry with
  | none => .ok () (before ++ [.log entry])
  | some e => .error e before

/-- The logger throws `e` on some call. -/
def Logger.Throws (logger : Logger) (e : Exception) : Prop := ∃ before entry, logger before entry = some e
/-- The logger does not throw. -/
def Logger.Quiet (logger : Logger) : Prop := ∀ before entry, logger before entry = none

/-! ## The method -/

/-- The `try` block. -/
def parseModel (response : Utf16) : Except Exception SteamworksData := do
  let sections := split 0x7C (← substringFrom response 7)
  let downloadUrl ← elementAt sections 0
  let timestamp ← longParse (← elementAt sections 1)
  let matchDate ← origin.addSeconds timestamp
  return ⟨downloadUrl, matchDate⟩

def notLoggedInResponse : Utf16 := text "UNKNOWN_ERROR (3)"
def notLoggedInMessage : Utf16 := text "Error returned from steamworksconnection. The client is not logged onto Steam."
def decodingMessage (response : Utf16) : Utf16 := text "Error decoding response: " ++ response

def decodeResponse (logger : Logger) (response : Option Utf16) : Service SteamworksData :=
  match response with
  | none => perform (raise .nullReferenceException)
  | some response => do
    if (← perform (substring response 0 6)) = text "--demo" then
      tryCatch (perform (parseModel response)) fun e => do
        if contains response notLoggedInResponse then
          log logger ⟨.steamworksCommunicator, .warning, some e.type, notLoggedInMessage, []⟩
          throw ⟨.steamNotLoggedInException, notLoggedInMessage, some e.type⟩
        else
          log logger ⟨.steamworksCommunicator, .error, some e.type, decodingMessage response, []⟩
          throw ⟨.decodeResponseFailedException, decodingMessage response, some e.type⟩
    else throw ⟨.decodeResponseFailedException, [], none⟩

/-! ## Its result -/

/-- The exception for a response whose `try` block threw `e`. -/
def failure (response : Utf16) (e : Exception) : Exception :=
  if contains response notLoggedInResponse then ⟨.steamNotLoggedInException, notLoggedInMessage, some e.type⟩
  else ⟨.decodeResponseFailedException, decodingMessage response, some e.type⟩

/-- How `DecodeResponse` ends when the logger does not throw. -/
def result : Option Utf16 → Except Exception SteamworksData
  | none => raise .nullReferenceException
  | some response =>
    if response.length < 6 then raise .argumentOutOfRangeException
    else if response.take 6 = text "--demo" then (parseModel response).mapError (failure response)
    else .error ⟨.decodeResponseFailedException, [], none⟩

/-- A response was read that decodes to match data. -/
def Event.IsAnswer (event : Event) : Prop := ∃ response d, event = .read response ∧ result response = .ok d

/-- A property that another log entry does not touch. -/
def LogStable (P : List Event → Prop) : Prop := ∀ before entry, P before → P (before ++ [.log entry])

theorem Logger.Quiet.not_throws {logger : Logger} (quiet : logger.Quiet) (e : Exception) : ¬ logger.Throws e := by
  rintro ⟨before, entry, threw⟩
  rw [quiet] at threw
  cases threw

section
variable (logger : Logger) {P : List Event → Prop} (stable : LogStable P)
include stable

theorem triple_log (entry : LogEntry) :
    Triple P (log logger entry) (ends (fun _ => P) (fun e after => P after ∧ logger.Throws e)) := by
  intro before holds
  simp only [outcome, trace, EStateM.run, log]
  cases answer : logger before entry with
  | none => exact stable before entry holds
  | some e => exact ⟨holds, before, entry, answer⟩

theorem triple_log_bind {α : Type} {entry : LogEntry} {next : Unit → Service α}
    {Q : Except Exception α → List Event → Prop}
    (threw : ∀ e before, P before → logger.Throws e → Q (.error e) before) (second : Triple P (next ()) Q) :
    Triple P (log logger entry >>= next) Q := by
  refine triple_bind (M := fun _ => P) ((triple_log logger stable entry).weaken ?_) (fun _ => second)
  intro ended after holds
  cases ended with
  | ok _ => exact holds
  | error e => exact threw e after holds.1 holds.2

theorem triple_log_throw (entry : LogEntry) (e : Exception) :
    Triple P (do log logger entry; throw e : Service SteamworksData)
      (fun ended after => P after ∧ (ended = .error e ∨ ∃ thrown, ended = .error thrown ∧ logger.Throws thrown)) := by
  refine triple_log_bind logger stable ?_ ?_
  · intro thrown before holds threw
    exact ⟨holds, .inr ⟨thrown, rfl, threw⟩⟩
  · apply triple_throw
    intro before holds
    exact ⟨holds, .inl rfl⟩

/-- `DecodeResponse` only logs, and ends with its result or, where that is an
    exception, with one of the logger's. -/
theorem decodeResponse_triple (response : Option Utf16) :
    Triple P (decodeResponse logger response) (fun ended after => P after ∧ (ended = result response ∨
      ∃ failed thrown, result response = .error failed ∧ ended = .error thrown ∧ logger.Throws thrown)) := by
  cases response with
  | none =>
    unfold decodeResponse
    apply triple_perform
    intro before holds
    exact ⟨holds, .inl rfl⟩
  | some response =>
    have head : Triple P (perform (substring response 0 6)) (ends
        (fun head after => 6 ≤ response.length ∧ head = response.take 6 ∧ P after)
        (fun e after => P after ∧ .error e = result (some response))) := by
      apply triple_perform
      intro before holds
      by_cases long : 6 ≤ response.length
      · simp [substring, long, ends, holds]
      · have short : response.length < 6 := by omega
        simp [substring, long, ends, raise, result, short, holds]
    unfold decodeResponse
    refine triple_bind (M := fun head after => 6 ≤ response.length ∧ head = response.take 6 ∧ P after)
      (head.weaken ?_) ?_
    · intro ended after holds
      cases ended with
      | ok start => exact holds
      | error e => exact ⟨holds.1, .inl holds.2⟩
    intro start
    by_cases demo : start = text "--demo"
    · rw [if_pos demo]
      let M (e : Exception) (after : List Event) := result (some response) = .error (failure response e) ∧ P after
      have stable' : ∀ e, LogStable (M e) := fun e before entry holds => ⟨holds.1, stable before entry holds.2⟩
      have either : ∀ e x, x = failure response e → ∀ ended after,
          M e after ∧ (ended = .error x ∨ ∃ thrown, ended = .error thrown ∧ logger.Throws thrown) →
          P after ∧ (ended = result (some response) ∨ ∃ failed thrown,
            result (some response) = .error failed ∧ ended = .error thrown ∧ logger.Throws thrown) := by
        rintro e _ rfl ended after ⟨⟨failed, holds⟩, rfl | ⟨thrown, rfl, threw⟩⟩
        · exact ⟨holds, .inl failed.symm⟩
        · exact ⟨holds, .inr ⟨_, thrown, failed, rfl, threw⟩⟩
      refine triple_catch (M := M) ?_ ?_
      · apply triple_perform
        rintro before ⟨long, rfl, holds⟩
        cases parsed : parseModel response with
        | ok d => simp [ends, result, demo, parsed, Nat.not_lt.mpr long, holds, Except.mapError]
        | error e => simp [M, ends, result, demo, parsed, Nat.not_lt.mpr long, holds, Except.mapError]
      · intro e
        by_cases marked : contains response notLoggedInResponse = true
        · rw [if_pos marked]
          exact (triple_log_throw logger (stable' e) _ _).weaken (either e _ (by rw [failure, if_pos marked]))
        · rw [if_neg marked]
          exact (triple_log_throw logger (stable' e) _ _).weaken (either e _ (by rw [failure, if_neg marked]))
    · rw [if_neg demo]
      apply triple_throw
      rintro before ⟨long, rfl, holds⟩
      exact ⟨holds, .inl (by simp [result, demo, Nat.not_lt.mpr long])⟩

end

/-- Whatever the logger does, match data is returned exactly when it is the result. -/
theorem decodeResponse_ok_iff (logger : Logger) (before : List Event) (response : Option Utf16) (d : SteamworksData) :
    outcome (decodeResponse logger response) before = .ok d ↔ result response = .ok d := by
  have anything : LogStable (fun _ => True) := fun _ _ _ => trivial
  obtain ⟨_, ended | ⟨failed, thrown, same, ended, _⟩⟩ :=
    decodeResponse_triple logger anything response before trivial
  · rw [ended]
  · simp [ended, same]

/-- With a logger that does not throw, `DecodeResponse` ends with its result. -/
theorem decodeResponse_outcome {logger : Logger} (quiet : logger.Quiet) (before : List Event) (response : Option Utf16) :
    outcome (decodeResponse logger response) before = result response := by
  have anything : LogStable (fun _ => True) := fun _ _ _ => trivial
  obtain ⟨_, ended | ⟨_, thrown, _, _, threw⟩⟩ := decodeResponse_triple logger anything response before trivial
  · exact ended
  · exact absurd threw (quiet.not_throws thrown)

/-! ## The documented ways to fail -/

/-- The response says that the client is not logged in. -/
def Marked (response : Option Utf16) : Prop := ∃ s, response = some s ∧ contains s notLoggedInResponse = true
/-- Match data from a response that is not marked, or one of the service's own
    exceptions, the one for a lost login only for a marked response. -/
def Documented (response : Option Utf16) : Except Exception SteamworksData → Prop
  | .ok _ => ¬ Marked response
  | .error e => e.type = .decodeResponseFailedException ∨ e.type = .steamNotLoggedInException ∧ Marked response

/-- Behind seven characters come a section and another one that reads as a number
    of seconds between the years 1 and 9999. -/
def HoldsData (response : Utf16) : Prop := ∃ downloadUrl time more seconds,
  split 0x7C (response.drop 7) = downloadUrl :: time :: more ∧ longParse time = .ok seconds ∧
    -62135596800 ≤ seconds ∧ seconds < 253402300800

theorem addSeconds_ok_iff (seconds : ℤ) :
    (∃ date, origin.addSeconds seconds = .ok date) ↔ -62135596800 ≤ seconds ∧ seconds < 253402300800 := by
  have range : (0 ≤ (origin.ticks : ℤ) + seconds * 10000000 ∧ (origin.ticks : ℤ) + seconds * 10000000 < 3155378976000000000) ↔
      -62135596800 ≤ seconds ∧ seconds < 253402300800 := by
    simp only [origin]
    omega
  rw [← range, DateTime.addSeconds]
  by_cases inside : 0 ≤ (origin.ticks : ℤ) + seconds * 10000000 ∧ (origin.ticks : ℤ) + seconds * 10000000 < 3155378976000000000
  · simp [inside]
  · simp [inside, raise]

theorem parseModel_sections {response downloadUrl time : Utf16} {more : List Utf16} (long : 7 ≤ response.length)
    (sections : split 0x7C (response.drop 7) = downloadUrl :: time :: more) : parseModel response =
      (longParse time >>= fun timestamp => origin.addSeconds timestamp >>= fun date => .ok ⟨downloadUrl, date⟩) := by
  simp [parseModel, substringFrom, long, sections, elementAt, bind, Except.bind, pure, Except.pure]

theorem parseModel_ok {response downloadUrl time : Utf16} {more : List Utf16} {timestamp : ℤ} {date : DateTime}
    (long : 7 ≤ response.length) (sections : split 0x7C (response.drop 7) = downloadUrl :: time :: more)
    (number : longParse time = .ok timestamp) (inRange : origin.addSeconds timestamp = .ok date) :
    parseModel response = .ok ⟨downloadUrl, date⟩ := by
  rw [parseModel_sections long sections, number]
  simp [inRange, bind, Except.bind]

/-- A response that is too short or has no separator holds no match data. -/
theorem parseModel_error {response : Utf16} (few : response.length < 7 ∨ (split 0x7C (response.drop 7)).length < 2) :
    ∃ e, parseModel response = .error e := by
  by_cases long : 7 ≤ response.length
  · have few' := few.resolve_left (by omega)
    match sections : split 0x7C (response.drop 7) with
    | [] => simp [parseModel, substringFrom, long, sections, elementAt, raise, bind, Except.bind]
    | [_] => simp [parseModel, substringFrom, long, sections, elementAt, raise, bind, Except.bind]
    | _ :: _ :: _ =>
      simp only [sections, List.length_cons] at few'
      omega
  · simp [parseModel, substringFrom, long, raise, bind, Except.bind]

/-- What the `try` block returns is the first section and the time that the second one stands for. -/
theorem parseModel_eq_ok_iff {response : Utf16} {d : SteamworksData} : parseModel response = .ok d ↔
    ∃ time more timestamp, split 0x7C (response.drop 7) = d.downloadUrl :: time :: more ∧
      longParse time = .ok timestamp ∧ origin.addSeconds timestamp = .ok d.matchDate := by
  by_cases few : response.length < 7 ∨ (split 0x7C (response.drop 7)).length < 2
  · obtain ⟨e, failed⟩ := parseModel_error few
    have short : (split 0x7C (response.drop 7)).length < 2 := by
      rcases few with short | short
      · rw [List.drop_eq_nil_of_le (by omega)]
        simp [split]
      · exact short
    simp only [failed, reduceCtorEq, false_iff]
    rintro ⟨time, more, _, sections, _⟩
    simp only [sections, List.length_cons] at short
    omega
  · simp only [not_or, not_lt] at few
    obtain ⟨long, enough⟩ := few
    constructor
    · intro parsed
      match sections : split 0x7C (response.drop 7) with
      | [] => simp [sections] at enough
      | [_] => simp [sections] at enough
      | downloadUrl :: time :: more =>
        cases number : longParse time with
        | error e =>
          rw [parseModel_sections long sections, number] at parsed
          cases parsed
        | ok timestamp =>
          cases date : origin.addSeconds timestamp with
          | error e =>
            rw [parseModel_sections long sections, number] at parsed
            simp [date, bind, Except.bind] at parsed
          | ok matchDate =>
            rw [parseModel_ok long sections number date] at parsed
            cases parsed
            exact ⟨time, more, timestamp, rfl, number, date⟩
    · rintro ⟨time, more, timestamp, sections, number, date⟩
      exact parseModel_ok long sections number date

theorem parseModel_ok_iff (response : Utf16) : (∃ d, parseModel response = .ok d) ↔ HoldsData response := by
  constructor
  · rintro ⟨d, parsed⟩
    obtain ⟨time, more, timestamp, sections, number, date⟩ := parseModel_eq_ok_iff.mp parsed
    exact ⟨d.downloadUrl, time, more, timestamp, sections, number, (addSeconds_ok_iff timestamp).mp ⟨_, date⟩⟩
  · rintro ⟨downloadUrl, time, more, timestamp, sections, number, range⟩
    obtain ⟨matchDate, date⟩ := (addSeconds_ok_iff timestamp).mpr range
    exact ⟨⟨downloadUrl, matchDate⟩, parseModel_eq_ok_iff.mpr ⟨time, more, timestamp, sections, number, date⟩⟩

theorem marked_some_iff (s : Utf16) : Marked (some s) ↔ contains s notLoggedInResponse = true := by simp [Marked]

/-- Whatever the `try` block throws is reported in a documented way. -/
theorem documented_failure (s : Utf16) (e : Exception) : Documented (some s) (.error (failure s e)) := by
  rw [Documented, marked_some_iff, failure]
  by_cases marked : contains s notLoggedInResponse = true
  · simp [marked]
  · simp [marked]

/-- `DecodeResponse` ends in a documented way exactly on the responses of at
    least six characters that are not both marked and readable as match data. -/
theorem documented_iff (logger : Logger) (quiet : logger.Quiet) (before : List Event) (response : Option Utf16) :
    Documented response (outcome (decodeResponse logger response) before) ↔
      ∃ s, response = some s ∧ 6 ≤ s.length ∧
        ¬ (s.take 6 = text "--demo" ∧ HoldsData s ∧ contains s notLoggedInResponse = true) := by
  rw [decodeResponse_outcome quiet]
  cases response with
  | none => simp [result, raise, Documented]
  | some s =>
    simp only [Option.some.injEq, exists_eq_left']
    by_cases short : s.length < 6
    · have long : ¬ 6 ≤ s.length := by omega
      simp [result, short, long, raise, Documented]
    have long : 6 ≤ s.length := by omega
    by_cases demo : s.take 6 = text "--demo"
    · have ended : result (some s) = (parseModel s).mapError (failure s) := by
        rw [result, if_neg short, if_pos demo]
      rw [ended, ← parseModel_ok_iff]
      cases parsed : parseModel s with
      | ok d => simp [Except.mapError, Documented, marked_some_iff, long, demo]
      | error e =>
        have reported := documented_failure s e
        simpa [Except.mapError, long] using reported
    · have ended : result (some s) = .error ⟨.decodeResponseFailedException, [], none⟩ := by
        rw [result, if_neg short, if_neg demo]
      simp [ended, Documented, long, demo]

/-- The error that the connection writes is reported in a documented way. -/
theorem unknownError_documented : Documented (some (text "--demo UNKNOWN_ERROR"))
    (outcome (decodeResponse (fun _ _ => none) (some (text "--demo UNKNOWN_ERROR"))) []) :=
  (documented_iff (fun _ _ => none) (fun _ _ => rfl) [] (some (text "--demo UNKNOWN_ERROR"))).mpr
    ⟨_, rfl, by decide, by
      rintro ⟨_, _, marked⟩
      revert marked
      decide⟩

/-- The end of the stream is a `NullReferenceException`. -/
theorem endOfStream_undocumented : ¬ ∀ (logger : Logger), logger.Quiet → ∀ (before : List Event) (response : Option Utf16),
    Documented response (outcome (decodeResponse logger response) before) := by
  intro all
  have documented := all (fun _ _ => none) (fun _ _ => rfl) [] none
  rcases documented with failed | ⟨notLoggedIn, _⟩
  · cases failed
  · cases notLoggedIn

end SteamworksService.DecodeResponse
