import SteamworksService.Consumer
import SteamworksService.Templates

/-!
# Logging in the handler

`HandleMessageAsync` hands its exception to the logger as an argument of a
message that contains the sharing code, which makes a template of the code. All
other log calls of the service come without arguments. The result says for which
codes the handler returns.
-/
namespace SteamworksService.Logging
open DotNet Effects FromSharingCode DecodeResponse GetMatchData Consumer Templates

/-- The logging library: a message with arguments is a template, and the call throws
    exactly when the arguments cannot be filled in; a message without arguments is
    taken literally. -/
structure TemplateLogger (doubled : Bool) (logger : Logger) : Prop where
  literal : ∀ before entry, entry.args = [] → logger before entry = none
  template : ∀ before entry, entry.args ≠ [] →
    (logger before entry = none ↔ Fills doubled entry.args.length entry.message)
/-- The code can be filled, in plain text, with one argument. -/
def CodeFills (doubled : Bool) (code : Utf16) : Prop := Fills doubled 1 (text "[ " ++ code ++ text " ]")
instance (doubled : Bool) (code : Utf16) : Decidable (CodeFills doubled code) := inferInstanceAs (Decidable (Fills _ _ _))

/-! ## Calls without arguments -/

/-- The same environment with a logger that does not throw. -/
def quieted (env : Environment) : Environment := { env with logger := fun _ _ => none }

section
variable {env : Environment} {doubled : Bool} (templates : TemplateLogger doubled env.logger)
include templates

theorem log_literal (category : Category) (level : LogLevel) (exception : Option ExceptionType) (message : Utf16) :
    DecodeResponse.log env.logger ⟨category, level, exception, message, []⟩ =
      DecodeResponse.log (quieted env).logger ⟨category, level, exception, message, []⟩ := by
  funext before
  have taken := templates.literal before ⟨category, level, exception, message, []⟩ rfl
  simp only [DecodeResponse.log, taken, quieted]

theorem decodeResponse_quieted (response : Option Utf16) :
    decodeResponse env.logger response = decodeResponse (quieted env).logger response := by
  cases response with
  | none => rfl
  | some response => simp only [decodeResponse, log_literal templates]

variable [Collation]

theorem attempt_quieted (sharingCode : Option Utf16) (i : ℕ) :
    attempt env sharingCode i = attempt (quieted env) sharingCode i := by
  simp only [attempt, GetMatchData.log, decodeResponse_quieted templates, log_literal templates]
  rfl

theorem getMatchData_quieted (sharingCode : Option Utf16) :
    getMatchData env sharingCode = getMatchData (quieted env) sharingCode := by
  have pauses : pause env = pause (quieted env) := by
    funext e failedAttempts
    simp only [pause, GetMatchData.log, log_literal templates]
  have attempts : attempt env sharingCode = attempt (quieted env) sharingCode :=
    funext (attempt_quieted templates sharingCode)
  rw [getMatchData, getMatchData, attempts, pauses]

/-- Up to the `catch` blocks the handler runs as with a logger that does not throw. -/
theorem handle_quieted (inbound : SharingCodeInstruction) : handle env inbound = handle (quieted env) inbound := by
  simp only [handle, Consumer.log, getMatchData_quieted templates, log_literal templates]
  rfl

end

/-! ## The `catch` blocks -/

section
variable {env : Environment} {doubled : Bool} (templates : TemplateLogger doubled env.logger)
  {P : List Event → Prop}
include templates

/-- A call with arguments goes through exactly when its message can be filled with them. -/
theorem triple_log_template {α : Type} {entry : LogEntry} (args : entry.args ≠ []) {next : Unit → Service α}
    (stable : LogStable P) (returns : Triple P (next ()) (fun ended _ => ∃ a, ended = .ok a)) :
    Triple P (DecodeResponse.log env.logger entry >>= next)
      (fun ended _ => (∃ a, ended = .ok a) ↔ Fills doubled entry.args.length entry.message) := by
  by_cases fills : Fills doubled entry.args.length entry.message
  · refine triple_bind (M := fun _ => P) ?_ (fun _ => returns.weaken (fun ended _ ok => by simp [ok, fills]))
    intro before holds
    have taken := (templates.template before entry args).mpr fills
    simp only [outcome, trace, EStateM.run, DecodeResponse.log, taken]
    exact stable before entry holds
  · refine triple_bind (M := fun _ _ => False) ?_ (fun _ _ impossible => impossible.elim)
    intro before _
    have refused := (templates.template before entry args).not.mpr fills
    obtain ⟨e, threw⟩ := Option.ne_none_iff_exists'.mp refused
    simp only [outcome, trace, EStateM.run, DecodeResponse.log, threw]
    simp [ends, fills]

/-- The text around the sharing code is plain in both messages, so the code alone
    decides whether the handler gets past its log call. -/
theorem settle_triple (inbound : SharingCodeInstruction) (e : Exception) :
    Triple (fun _ => True) (settle env inbound e)
      (fun ended _ => (∃ handling, ended = .ok handling) ↔ CodeFills doubled (inbound.sharingCode.getD [])) := by
  have anything : LogStable (fun _ => True) := fun _ _ _ => trivial
  have before : Plain (text "Message with SharingCode [ ") := by decide
  have around : ∀ after, Plain after → after ≠ [] → (CodeFills doubled (inbound.sharingCode.getD []) ↔
      Fills doubled 1 (text "Message with SharingCode [ " ++ inbound.sharingCode.getD [] ++ after)) :=
    fun after plain more => fills_around (by decide) before (by decide) (by decide) plain more _
  unfold settle Consumer.log
  cases isTemporary e with
  | true =>
    have plain : Plain (text " ] could not be handled right now. " ++
        (text "Instructing the message to be resent, and sleeping for [ " ++ (decimal retryAfterMilliseconds ++
          text " ] ms, assuming this is a temporary failure."))) := by decide +kernel
    refine (triple_log_template templates (by simp) anything ?_).weaken ?_
    · refine triple_emit_bind (M := fun _ => True) (fun _ _ => trivial) ?_
      exact triple_pure (fun _ _ => ⟨.resend, rfl⟩)
    · intro ended _ logged
      rw [around _ plain (by decide +kernel)]
      simp only [List.append_assoc] at logged ⊢
      exact logged
  | false =>
    have plain : Plain (text " ] could not be handled. " ++
        text "Instructing the message to be thrown away, assuming the message is corrupt.") := by decide +kernel
    refine (triple_log_template templates (by simp) anything ?_).weaken ?_
    · exact triple_pure (fun _ _ => ⟨.throwAway, rfl⟩)
    · intro ended _ logged
      rw [around _ plain (by decide +kernel)]
      simp only [List.append_assoc] at logged ⊢
      exact logged

variable [Collation]

theorem returns_triple (inbound : SharingCodeInstruction) :
    Triple (Trying (quieted env).logger 0 0) (handleMessageAsync env inbound)
      (fun ended _ => (∃ handling, ended = .ok handling) ↔
        handleResult env inbound = .ok () ∨ CodeFills doubled (inbound.sharingCode.getD [])) := by
  have attempted := @handle_triple _ (quieted env) inbound (fun _ _ => rfl)
  rw [handleMessageAsync, handle_quieted templates]
  refine triple_catch (M := fun e _ => handleResult env inbound = .error e) (attempted.weaken ?_) ?_
  · intro ended after holds
    cases ended with
    | ok handling =>
      have succeeded : handleResult env inbound = .ok () := holds.2.1
      simp [ends, succeeded]
    | error e => exact holds.1
  · intro e before failed
    have logged := settle_triple templates inbound e before trivial
    simp only [failed, reduceCtorEq, false_or]
    exact logged

/-- The handler returns exactly when match data was fetched and published, or the
    sharing code makes a template that the library can fill with one argument. -/
theorem returns_iff (inbound : SharingCodeInstruction) :
    (∃ handling, outcome (handleMessageAsync env inbound) [] = .ok handling) ↔
      handleResult env inbound = .ok () ∨ CodeFills doubled (inbound.sharingCode.getD []) :=
  returns_triple templates inbound [] (trying_nil (quieted env).logger)

/-- So it always returns on a code without braces. -/
theorem returns_of_plain (inbound : SharingCodeInstruction) (plain : Plain (inbound.sharingCode.getD [])) :
    ∃ handling, outcome (handleMessageAsync env inbound) [] = .ok handling := by
  have whole : Plain (text "[ " ++ inbound.sharingCode.getD [] ++ text " ]") := by
    have around : Plain (text "[ ") ∧ Plain (text " ]") := by decide
    intro c member
    simp only [List.mem_append] at member
    rcases member with (front | inside) | behind
    · exact around.1 c front
    · exact plain c inside
    · exact around.2 c behind
  exact (returns_triple templates inbound [] (trying_nil (quieted env).logger)).mpr (.inr (fills_plain whole))

end

/-- The logging library itself. -/
def templateLogger : Logger := fun _ entry =>
  if entry.args = [] ∨ Fills true entry.args.length entry.message then none else some ⟨.other 0, [], none⟩

theorem templateLogger_templates : TemplateLogger true templateLogger where
  literal _ entry noArgs := by simp [templateLogger, noArgs]
  template _ entry args := by simp [templateLogger, args]

/-- An environment with a pipe that works. -/
def openEnvironment : Environment where
  pipe _ := ⟨.ok (), .ok (), .ok none⟩
  logger := templateLogger
  publisher _ := .ok ()
  dateText _ := []

/-- A sharing code that is a brace. -/
def braceInstruction : SharingCodeInstruction := ⟨some [0x7B], 1, 0⟩

section
local instance : Collation := ordinal

theorem brace_returns_iff : (∃ handling, outcome (handleMessageAsync openEnvironment braceInstruction) [] = .ok handling) ↔
    handleResult openEnvironment braceInstruction = .ok () ∨ CodeFills true (braceInstruction.sharingCode.getD []) :=
  returns_iff templateLogger_templates braceInstruction

end

/-- The pipe is there, but a brace is no sharing code, in any culture, and it cannot be logged either. -/
theorem brace_throws : ¬ ∃ _ : Collation, ∀ (env : Environment) (doubled : Bool), TemplateLogger doubled env.logger →
    ∀ inbound : SharingCodeInstruction, inbound.sharingCode ≠ none →
      ∃ handling, outcome (handleMessageAsync env inbound) [] = .ok handling := by
  rintro ⟨culture, all⟩
  have returned := all openEnvironment _ templateLogger_templates braceInstruction (by decide)
  have decided := @returns_triple openEnvironment _ templateLogger_templates culture braceInstruction [] (trying_nil _)
  have short : ∀ leading, Short (codeValue (strip leading [0x7B])) := by decide
  obtain ⟨e, failed⟩ := (fromSharingCode_error_iff [0x7B]).mpr (short _)
  have fails : ∀ i, attemptResult openEnvironment braceInstruction.sharingCode i = .error e := by
    intro i
    simp [attemptResult, openEnvironment, braceInstruction, failed, bind, Except.bind]
  rcases decided.mp returned with succeeded | fills
  · have nothing : firstData openEnvironment braceInstruction.sharingCode = none := firstData_eq_none (fun i _ => ⟨e, fails i⟩)
    simp [handleResult, fetchResult, nothing, fails, bind, Except.bind] at succeeded
  · exact absurd fills (by decide +kernel)

end SteamworksService.Logging
