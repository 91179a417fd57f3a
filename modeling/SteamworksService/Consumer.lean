import SteamworksService.GetMatchData
import SteamworksService.Responses

/-!
# Handling a message

`HandleMessageAsync`: match data is fetched for the sharing code and published,
and the message is settled by how that ended. The results are what the queue
and the publisher see of any handling, and what becomes of a message while the
connection refuses requests.
-/
namespace SteamworksService.Consumer
open DotNet Effects FromSharingCode DecodeResponse GetMatchData StreamReader Responses

/-! ## The method -/

inductive ConsumedMessageHandling
  | done
  | resend
  | throwAway
  deriving DecidableEq, Repr

def retryAfterMilliseconds : ℕ := 1000

/-- The exception filter. -/
def isTemporary (e : Exception) : Bool := e.type = .timeoutException || e.type = .steamNotLoggedInException

theorem isTemporary_iff (e : Exception) :
    isTemporary e = true ↔ e.type = .timeoutException ∨ e.type = .steamNotLoggedInException := by
  simp [isTemporary]

/-- The outbound model. -/
def instruction (inbound : SharingCodeInstruction) (swData : SteamworksData) : DemoInsertInstruction where
  downloadUrl := swData.downloadUrl
  matchDate := swData.matchDate
  uploaderId := inbound.uploaderId
  uploadType := inbound.uploadType
  source := .valve

def log (env : Environment) (level : LogLevel) (message : Utf16) (args : List ExceptionType) : Service Unit :=
  DecodeResponse.log env.logger ⟨.gathererConsumer, level, none, message, args⟩

section
variable [Collation] (env : Environment) (inbound : SharingCodeInstruction)

/-- The `try` block. -/
def handle : Service ConsumedMessageHandling := do
  let code := inbound.sharingCode.getD []
  log env .information (text "Received message with SharingCode [ " ++ code ++ text " ].") []
  let swData ← getMatchData env inbound.sharingCode
  let outboundModel := instruction inbound swData
  log env .information (text "Successfully handled message with SharingCode [ " ++ code ++ text " ].") []
  emit (.publish outboundModel)
  perform (env.publisher outboundModel)
  return .done

/-- The `catch` blocks. The exception is passed to the logger as an argument of the message. -/
def settle (e : Exception) : Service ConsumedMessageHandling :=
  let code := inbound.sharingCode.getD []
  if isTemporary e then do
    log env .warning (text "Message with SharingCode [ " ++ code ++ text " ] could not be handled right now. " ++
      text "Instructing the message to be resent, and sleeping for [ " ++ decimal retryAfterMilliseconds ++
      text " ] ms, assuming this is a temporary failure.") [e.type]
    emit (.sleep retryAfterMilliseconds)
    return .resend
  else do
    log env .error (text "Message with SharingCode [ " ++ code ++ text " ] could not be handled. " ++
      text "Instructing the message to be thrown away, assuming the message is corrupt.") [e.type]
    return .throwAway

def handleMessageAsync : Service ConsumedMessageHandling := tryCatch (handle env inbound) (settle env inbound)

/-! ## What a handling amounts to -/

/-- Whether match data was fetched and published, or the exception that ended the handling. -/
def handleResult : Except Exception Unit := do
  let swData ← fetchResult env inbound.sharingCode
  env.publisher (instruction inbound swData)

/-- What the events of a handling amount to. -/
structure Reported (events : List Event) : Prop where
  published : published events = (firstData env inbound.sharingCode).toList.map (fun d =>
    { downloadUrl := d.downloadUrl, matchDate := d.matchDate,
      uploaderId := inbound.uploaderId, uploadType := inbound.uploadType, source := .valve })
  attempts : events.countP Event.isConnect ≤ 3
  requests : events.countP Event.isWrite ≤ 3
  settled : Settled events

/-- The exception that ended the handling is the third attempt's, or the publisher's. -/
def EndedBy (events : List Event) (e : Exception) : Prop :=
  (published events = [] ∧ attemptResult env inbound.sharingCode 2 = .error e) ∨
    ∃ sent, published events = [sent] ∧ env.publisher sent = .error e

/-- The queue is told the truth. -/
structure Truthful (handling : ConsumedMessageHandling) (events : List Event) : Prop extends Reported env inbound events where
  once : (DecodeResponse.published events).length ≤ 1
  done : handling = .done ↔ ∃ sent, DecodeResponse.published events = [sent] ∧ env.publisher sent = .ok ()
  resend : handling = .resend ↔
    ∃ e, EndedBy env inbound events e ∧ (e.type = .timeoutException ∨ e.type = .steamNotLoggedInException)
  throwAway : handling = .throwAway ↔
    ∃ e, EndedBy env inbound events e ∧ e.type ≠ .timeoutException ∧ e.type ≠ .steamNotLoggedInException

variable {env inbound}

theorem firstData_of_ok {d : SteamworksData} (fetched : fetchResult env inbound.sharingCode = .ok d) :
    firstData env inbound.sharingCode = some d := by
  unfold fetchResult at fetched
  cases first : firstData env inbound.sharingCode with
  | some found =>
    rw [first] at fetched
    cases fetched
    rfl
  | none =>
    rw [first] at fetched
    have all := List.findSome?_eq_none_iff.mp first 2 (List.mem_range.mpr (by decide))
    have third : attemptResult env inbound.sharingCode 2 = .ok d := fetched
    rw [third] at all
    cases all

theorem firstData_of_error {e : Exception} (failed : fetchResult env inbound.sharingCode = .error e) :
    firstData env inbound.sharingCode = none := by
  unfold fetchResult at failed
  cases first : firstData env inbound.sharingCode with
  | some found =>
    rw [first] at failed
    cases failed
  | none => rfl

theorem Reported.push {events : List Event} (holds : Reported env inbound events) (event : Event)
    (connect : event.isConnect = false) (write : event.isWrite = false) (publish : DecodeResponse.published [event] = []) :
    Reported env inbound (events ++ [event]) where
  published := by
    rw [DecodeResponse.published, List.filterMap_append, ← DecodeResponse.published, ← DecodeResponse.published,
      publish, List.append_nil, holds.published]
  attempts := by simpa [List.countP_append, connect] using holds.attempts
  requests := by simpa [List.countP_append, write] using holds.requests
  settled := holds.settled.push (.inl write)

theorem handle_triple (quiet : env.logger.Quiet) : Triple (Trying env.logger 0 0) (handle env inbound)
    (ends (fun handling after => handling = .done ∧ handleResult env inbound = .ok () ∧ Reported env inbound after)
      (fun e after => handleResult env inbound = .error e ∧ Reported env inbound after)) := by
  unfold handle log
  refine triple_log_bind env.logger (trying_stable env.logger 0 0) ?_ ?_
  · intro e _ _ threw
    exact absurd threw (quiet.not_throws e)
  -- Match data is there, but not published yet.
  let Found (d : SteamworksData) (t : List Event) :=
    fetchResult env inbound.sharingCode = .ok d ∧ Orderly maxAttempts maxAttempts t ∧ Settled t
  have stable : ∀ d, LogStable (Found d) :=
    fun d t entry holds => ⟨holds.1, holds.2.1.push (.log entry) rfl, holds.2.2.push (.inl rfl)⟩
  refine triple_bind (M := Found) (getMatchData_triple.weaken ?_) ?_
  · intro ended t fetched
    have same := fetched.result quiet
    cases ended with
    | ok d => exact ⟨same.symm, fetched.orderly, fetched.settled quiet⟩
    | error e =>
      refine ⟨by rw [handleResult, ← same]; rfl, ?_, fetched.orderly.connects, fetched.orderly.writes,
        fetched.settled quiet⟩
      rw [fetched.orderly.unpublished, firstData_of_error same.symm]
      rfl
  intro d
  refine triple_log_bind env.logger (stable d) ?_ ?_
  · intro e _ _ threw
    exact absurd threw (quiet.not_throws e)
  let Published (t : List Event) := fetchResult env inbound.sharingCode = .ok d ∧ Reported env inbound t
  refine triple_emit_bind (M := Published) ?_ ?_
  · rintro t ⟨fetched, orderly, settled⟩
    refine ⟨fetched, ?_, ?_, ?_, settled.push (.inl rfl)⟩
    · rw [firstData_of_ok fetched, DecodeResponse.published, List.filterMap_append, ← DecodeResponse.published,
        orderly.unpublished]
      rfl
    · simpa [List.countP_append, Event.isConnect, maxAttempts] using orderly.connects
    · simpa [List.countP_append, Event.isWrite, maxAttempts] using orderly.writes
  refine triple_perform_bind ?_ ?_
  · intro e failed t holds
    exact ⟨by simp [handleResult, holds.1, failed, bind, Except.bind], holds.2⟩
  · intro _ succeeded
    apply triple_pure
    intro t holds
    exact ⟨rfl, by simp [handleResult, holds.1, succeeded, bind, Except.bind], holds.2⟩

/-- What was published, if anything was, decides how the handling went on. -/
theorem Reported.result {events : List Event} (holds : Reported env inbound events) :
    (handleResult env inbound = .ok () ↔
      ∃ sent, DecodeResponse.published events = [sent] ∧ env.publisher sent = .ok ()) ∧
    ∀ e, handleResult env inbound = .error e ↔ EndedBy env inbound events e := by
  have sent := holds.published
  unfold handleResult EndedBy
  cases fetched : fetchResult env inbound.sharingCode with
  | ok d =>
    rw [firstData_of_ok fetched] at sent
    simp [sent, instruction, bind, Except.bind]
  | error e =>
    have nothing := firstData_of_error fetched
    have third : attemptResult env inbound.sharingCode 2 = .error e := by
      rw [fetchResult, nothing] at fetched
      exact fetched
    rw [nothing] at sent
    simp [sent, third, bind, Except.bind]

theorem Truthful.of_result {handling : ConsumedMessageHandling} {events : List Event} (reported : Reported env inbound events)
    (same : (handling = .done ∧ handleResult env inbound = .ok ()) ∨
      ∃ e, handleResult env inbound = .error e ∧ handling = if isTemporary e then .resend else .throwAway) :
    Truthful env inbound handling events := by
  have once : (DecodeResponse.published events).length ≤ 1 := by
    rw [reported.published, List.length_map]
    cases firstData env inbound.sharingCode <;> simp
  obtain ⟨fine, threw⟩ := reported.result
  rcases same with ⟨rfl, result⟩ | ⟨e, result, rfl⟩
  · have none : ∀ e, ¬ EndedBy env inbound events e := by
      intro e ended
      rw [← threw, result] at ended
      cases ended
    exact ⟨reported, once, by simp [← fine, result], by simp [none], by simp [none]⟩
  · have only : ∀ e', EndedBy env inbound events e' ↔ e' = e := by
      intro e'
      rw [← threw, result, Except.error.injEq, eq_comm]
    have failed : ¬ ∃ sent, DecodeResponse.published events = [sent] ∧ env.publisher sent = .ok () := by
      rw [← fine, result]
      simp
    by_cases temporary : e.type = .timeoutException ∨ e.type = .steamNotLoggedInException
    · rw [if_pos ((isTemporary_iff e).mpr temporary)]
      refine ⟨reported, once, by simp [failed], by simp [only, temporary], ?_⟩
      simp only [only, reduceCtorEq, false_iff]
      rintro ⟨_, rfl, notTimeout, notLogin⟩
      exact temporary.elim notTimeout notLogin
    · rw [if_neg (fun isTrue => temporary ((isTemporary_iff e).mp isTrue))]
      refine ⟨reported, once, by simp [failed], by simp [only, temporary], ?_⟩
      simp only [only, exists_eq_left, true_iff]
      exact not_or.mp temporary

theorem handleMessageAsync_triple (quiet : env.logger.Quiet) :
    Triple (Trying env.logger 0 0) (handleMessageAsync env inbound)
      (fun ended after => ∃ handling, ended = .ok handling ∧ Truthful env inbound handling after) := by
  let Thrown (e : Exception) (t : List Event) := handleResult env inbound = .error e ∧ Reported env inbound t
  have stable : ∀ e, LogStable (Thrown e) := fun e t entry holds => ⟨holds.1, holds.2.push (.log entry) rfl rfl rfl⟩
  refine triple_catch (M := Thrown) ((handle_triple quiet).weaken ?_) ?_
  · intro ended t holds
    cases ended with
    | ok handling => exact ⟨handling, rfl, .of_result holds.2.2 (.inl ⟨holds.1, holds.2.1⟩)⟩
    | error e => exact holds
  intro e
  have threw : ∀ e' t, Thrown e t → env.logger.Throws e' →
      ∃ handling, (Except.error e' : Except Exception ConsumedMessageHandling) = .ok handling ∧
        Truthful env inbound handling t :=
    fun e' _ _ threw => absurd threw (quiet.not_throws e')
  unfold settle log
  cases temporary : isTemporary e with
  | true =>
    refine triple_log_bind env.logger (stable e) threw ?_
    refine triple_emit_bind (M := Thrown e) (fun t holds => ⟨holds.1, holds.2.push (.sleep _) rfl rfl rfl⟩) ?_
    apply triple_pure
    intro t holds
    exact ⟨.resend, rfl, .of_result holds.2 (.inr ⟨e, holds.1, by rw [if_pos temporary]⟩)⟩
  | false =>
    refine triple_log_bind env.logger (stable e) threw ?_
    apply triple_pure
    intro t holds
    exact ⟨.throwAway, rfl, .of_result holds.2 (.inr ⟨e, holds.1, by simp [temporary]⟩)⟩

variable (env inbound)

/-- Every message is settled, with at most one publication and truthfully. -/
theorem handleMessageAsync_truthful (quiet : env.logger.Quiet) :
    ∃ handling, outcome (handleMessageAsync env inbound) [] = .ok handling ∧
      Truthful env inbound handling (trace (handleMessageAsync env inbound) []) :=
  handleMessageAsync_triple quiet [] (trying_nil env.logger)

end

/-- An environment in which the first pipe breaks under the request and the second one answers. -/
def sampleEnvironment : Environment where
  pipe
    | 0 => ⟨.ok (), .error ⟨.ioException, [], none⟩, .ok none⟩
    | _ => ⟨.ok (), .ok (), .ok (some (text "--demo http://replay1.valve.net/730/1.dem.bz2|1568000000"))⟩
  logger _ _ := none
  publisher _ := .ok ()
  dateText _ := []
def sampleInstruction : SharingCodeInstruction := ⟨some (utf16 sampleCode.text), 1, 0⟩

section
local instance : Collation := ordinal

theorem sampleInstruction_truthful : ∃ handling,
    outcome (handleMessageAsync sampleEnvironment sampleInstruction) [] = .ok handling ∧
      Truthful sampleEnvironment sampleInstruction handling
        (trace (handleMessageAsync sampleEnvironment sampleInstruction) []) :=
  handleMessageAsync_truthful sampleEnvironment sampleInstruction (fun _ _ => rfl)

end

/-! ## Refused requests -/

/-- An attempt whose request reaches the connection, which cannot send it on. -/
def refused (result : EGCResults) : PipeOutcome := ⟨.ok (), .ok (), .ok (lines (afterSend result)).head?⟩

section
variable [Collation] {env : Environment} {inbound : SharingCodeInstruction} {d : SharingCodeDecoded} {failing : ℕ → EGCResults}

/-- The result code is lost: the error response is the same for all of them. -/
theorem attemptResult_refused (decodes : fromSharingCode inbound.sharingCode = .ok d) {i : ℕ} (fails : failing i ≠ .ok)
    (refuses : env.pipe i = refused (failing i)) : attemptResult env inbound.sharingCode i =
      .error ⟨.decodeResponseFailedException, decodingMessage (utf16 (Response.text .unknownError)),
        some .indexOutOfRangeException⟩ := by
  have line : (lines (afterSend (failing i))).head? = some (utf16 (Response.text .unknownError)) := by
    have one := lines_stream [.unknownError] (by simp)
    rw [List.flatMap_singleton, List.flatMap_singleton] at one
    rw [afterSend, if_pos fails]
    exact congrArg List.head? one
  simp [attemptResult, refuses, refused, decodes, line, result_unknownError, bind, Except.bind]

theorem handle_refused (decodes : fromSharingCode inbound.sharingCode = .ok d) (fails : ∀ i < maxAttempts, failing i ≠ .ok)
    (refuses : ∀ i < maxAttempts, env.pipe i = refused (failing i))
    (logging : ∀ e, env.logger.Throws e → isTemporary e = false) :
    Triple (Trying env.logger 0 0) (handle env inbound) (fun ended _ => ∃ e, ended = .error e ∧ isTemporary e = false) := by
  unfold handle log
  refine triple_log_bind env.logger (trying_stable env.logger 0 0) ?_ ?_
  · intro e _ _ threw
    exact ⟨e, rfl, logging e threw⟩
  refine triple_bind (M := fun _ _ => False) (getMatchData_triple.weaken ?_) ?_
  · intro ended t fetched
    rcases fetched.source with ⟨i, inside, rfl⟩ | ⟨thrown, rfl, threw⟩
    · rw [attemptResult_refused decodes (fails i inside) (refuses i inside)]
      exact ⟨_, rfl, rfl⟩
    · exact ⟨thrown, rfl, logging thrown threw⟩
  · intro _ _ impossible
    exact impossible.elim

/-- A message whose requests are refused is never resent. -/
theorem not_resent (decodes : fromSharingCode inbound.sharingCode = .ok d) (fails : ∀ i < maxAttempts, failing i ≠ .ok)
    (refuses : ∀ i < maxAttempts, env.pipe i = refused (failing i))
    (logging : ∀ e, env.logger.Throws e → isTemporary e = false) :
    outcome (handleMessageAsync env inbound) [] ≠ .ok .resend := by
  have settled : Triple (Trying env.logger 0 0) (handleMessageAsync env inbound) (fun ended _ => ended ≠ .ok .resend) := by
    refine triple_catch (M := fun e _ => isTemporary e = false)
      ((handle_refused decodes fails refuses logging).weaken ?_) ?_
    · rintro _ t ⟨e, rfl, permanent⟩
      exact permanent
    · intro e before permanent
      have logged : Triple (fun _ => True) (settle env inbound e) (fun ended _ => ended ≠ .ok .resend) := by
        unfold settle log
        simp only [permanent, Bool.false_eq_true, if_false]
        refine triple_log_bind env.logger (fun _ _ _ => trivial) ?_ ?_
        · intro _ _ _ _
          simp
        · apply triple_pure
          intro _ _
          simp
      exact logged before trivial
  exact settled [] (trying_nil env.logger)

end

/-- While the connection refuses every request, the classification is right
    exactly when the last refusal was not for want of a login. -/
theorem lastRefusal_classified_iff [Collation] (env : Environment) (inbound : SharingCodeInstruction) (d : SharingCodeDecoded)
    (decodes : fromSharingCode inbound.sharingCode = .ok d) (failing : ℕ → EGCResults)
    (fails : ∀ i < maxAttempts, failing i ≠ .ok) (refuses : ∀ i < maxAttempts, env.pipe i = refused (failing i))
    (logging : ∀ e, env.logger.Throws e → isTemporary e = false) :
    ((failing (maxAttempts - 1) = .notLoggedOn → outcome (handleMessageAsync env inbound) [] = .ok .resend) ∧
      (failing (maxAttempts - 1) ≠ .notLoggedOn →
        ∀ e, outcome (handle env inbound) [] = .error e → e.type ≠ .steamNotLoggedInException)) ↔
      failing (maxAttempts - 1) ≠ .notLoggedOn := by
  have kept := not_resent decodes fails refuses logging
  obtain ⟨e, threw, permanent⟩ := handle_refused decodes fails refuses logging [] (trying_nil env.logger)
  constructor
  · rintro ⟨resent, _⟩ loggedOut
    exact kept (resent loggedOut)
  · intro other
    refine ⟨fun loggedOut => absurd loggedOut other, ?_⟩
    intro _ e' threw' same
    rw [threw] at threw'
    cases threw'
    simp [isTemporary, same] at permanent

/-- An environment in which the Steam client is logged out. -/
def loggedOutEnvironment : Environment where
  pipe _ := refused .notLoggedOn
  logger _ _ := none
  publisher _ := .ok ()
  dateText _ := []

section
local instance : Collation := ordinal

theorem loggedOut_classified : ((EGCResults.notLoggedOn = .notLoggedOn →
      outcome (handleMessageAsync loggedOutEnvironment sampleInstruction) [] = .ok .resend) ∧
    (EGCResults.notLoggedOn ≠ .notLoggedOn → ∀ e, outcome (handle loggedOutEnvironment sampleInstruction) [] = .error e →
      e.type ≠ .steamNotLoggedInException)) ↔ EGCResults.notLoggedOn ≠ .notLoggedOn := by
  obtain ⟨d, returned, _⟩ := sampleCode_returned
  refine lastRefusal_classified_iff loggedOutEnvironment sampleInstruction d returned (fun _ => .notLoggedOn)
    (fun _ _ => by decide) (fun _ _ => rfl) ?_
  rintro e ⟨_, _, threw⟩
  cases threw

end

theorem loggedOut_not_resent : ¬ ∃ _ : Collation, ∀ (env : Environment) (inbound : SharingCodeInstruction) (d : SharingCodeDecoded),
    fromSharingCode inbound.sharingCode = .ok d → ∀ failing : ℕ → EGCResults, (∀ i < maxAttempts, failing i ≠ .ok) →
      (∀ i < maxAttempts, env.pipe i = refused (failing i)) →
      (∀ e, env.logger.Throws e → isTemporary e = false) → failing (maxAttempts - 1) = .notLoggedOn →
        outcome (handleMessageAsync env inbound) [] = .ok .resend := by
  rintro ⟨culture, all⟩
  obtain ⟨d, returned, _⟩ := sampleCode_returned
  have logging : ∀ e, loggedOutEnvironment.logger.Throws e → isTemporary e = false := by
    rintro e ⟨_, _, threw⟩
    cases threw
  have fails : ∀ i < maxAttempts, (fun _ : ℕ => EGCResults.notLoggedOn) i ≠ .ok := by
    intro _ _
    simp
  have resent := all loggedOutEnvironment sampleInstruction d returned (fun _ => .notLoggedOn) fails (fun _ _ => rfl)
    logging rfl
  exact @not_resent culture loggedOutEnvironment sampleInstruction d (fun _ => .notLoggedOn) returned fails (fun _ _ => rfl)
    logging resent

end SteamworksService.Consumer
