import SteamworksService.Effects
import SteamworksService.NumberText

/-!
# Configuration

`ConfigureServices`: what is read from the environment variables, what is printed,
and which queues connections are made to. `QueueConnection` is a class of another
repository, whose constructor may throw. The result says when the services are
configured, and how.
-/
namespace SteamworksService.Configuration
open DotNet Effects NumberText

/-! ## The variables -/

/-- The value under a key, if there is one. -/
abbrev Config := String → Option Utf16

/-- What ends the start of the service; `ε` are the exceptions of `QueueConnection`. -/
inductive Failure (ε : Type)
  | argumentNullException (paramName : Utf16)
  | invalidCastException
  | parse (type : ExceptionType)
  | queueConnection (e : ε)
  deriving DecidableEq, Repr

/-- The events are the lines that are written to the console. -/
abbrev Startup (ε : Type) := Program Utf16 (Failure ε)

section
variable {ε : Type}

def missing (key : String) : Utf16 :=
  text key ++ text " is missing, Configure the `" ++ text key ++ text "` environment variable."

def getRequiredEnvironmentVariable (config : Config) (key : String) : Startup ε Utf16 :=
  match config key with
  | none => throw (.argumentNullException (missing key))
  | some value => pure value

/-- `Convert.ChangeType` to `ushort`, in the invariant culture. -/
def changeType : Option Utf16 → Except (Failure ε) UInt16
  | none => .error .invalidCastException
  | some stringValue => (ushortParse stringValue).mapError (fun e => .parse e.type)

def defaulting (key : String) (defaultValue : UInt16) : Utf16 :=
  text "Env var [ " ++ text key ++ text " ] not specified. Defaulting to [ " ++ decimal defaultValue.toNat ++ text " ]"

def getOptionalEnvironmentVariable (config : Config) (key : String) (defaultValue : UInt16) : Startup ε UInt16 :=
  tryCatch (perform (changeType (config key))) fun
    | .invalidCastException => do
      emit (defaulting key defaultValue)
      return defaultValue
    | e => throw e

end

/-! ## The services -/

/-- The connections of the producer and of the consumer, and the consumer's prefetch
    count; `κ` are the objects of `QueueConnection`. -/
structure Services (κ : Type) where
  outConnection : κ
  inConnection : κ
  prefetchCount : UInt16
  deriving DecidableEq, Repr

/-- The required variables in the order in which they are read. -/
def requiredVariables : List String := ["AMQP_URI", "AMQP_DEMOCENTRAL_QUEUE", "AMQP_GATHERER_QUEUE"]

def bracketed (key : String) (value : Utf16) : Utf16 := text key ++ text ": [ " ++ value ++ text " ]"

section
variable {κ ε : Type} (queueConnection : ℕ → Utf16 → Utf16 → Except ε κ) (config : Config)

/-- `queueConnection` says what `new QueueConnection(uri, queue)` comes to, the first
    time and the second. -/
def configureServices : Startup ε (Services κ) := do
  let uri ← getRequiredEnvironmentVariable config "AMQP_URI"
  let democentralQueue ← getRequiredEnvironmentVariable config "AMQP_DEMOCENTRAL_QUEUE"
  let gathererQueue ← getRequiredEnvironmentVariable config "AMQP_GATHERER_QUEUE"
  let prefetchCount ← getOptionalEnvironmentVariable config "AMQP_PREFETCH_COUNT" 1
  emit (text "Environment: ")
  emit (bracketed "AMQP_URI" uri)
  emit (bracketed "AMQP_DEMOCENTRAL_QUEUE" democentralQueue)
  emit (bracketed "AMQP_GATHERER_QUEUE" gathererQueue)
  emit (bracketed "AMQP_PREFETCH_COUNT" (decimal prefetchCount.toNat))
  let outConnection ← perform ((queueConnection 0 uri democentralQueue).mapError .queueConnection)
  let inConnection ← perform ((queueConnection 1 uri gathererQueue).mapError .queueConnection)
  return ⟨outConnection, inConnection, prefetchCount⟩

/-! ## What the start comes to -/

/-- What the optional variable comes to. -/
def Prefetch : Option Utf16 → UInt16 → Prop
  | none, count => count = 1
  | some value, count => Numeral value count.toNat

/-- The connections that the variables name were made. -/
structure Connected (uri democentralQueue gathererQueue : Utf16) (services : Services κ) : Prop where
  outConnection : queueConnection 0 uri democentralQueue = .ok services.outConnection
  inConnection : queueConnection 1 uri gathererQueue = .ok services.inConnection
/-- The services are the ones that the variables name. -/
def Configured (services : Services κ) : Prop :=
  ∃ uri democentralQueue gathererQueue, config "AMQP_URI" = some uri ∧
    config "AMQP_DEMOCENTRAL_QUEUE" = some democentralQueue ∧ config "AMQP_GATHERER_QUEUE" = some gathererQueue ∧
    Prefetch (config "AMQP_PREFETCH_COUNT") services.prefetchCount ∧
    Connected queueConnection uri democentralQueue gathererQueue services

/-- The exceptions that there are: for the first variable that is missing, for a
    prefetch count that is not a number of `ushort`, or for the first connection that
    is not made. -/
def Fails (e : Failure ε) : Prop :=
  match requiredVariables.find? (fun key => config key = none) with
  | some key => e = .argumentNullException (missing key)
  | none =>
    (∀ count, ¬ Prefetch (config "AMQP_PREFETCH_COUNT") count) ∧ (e = .parse .formatException ∨ e = .parse .overflowException) ∨
      (∃ count, Prefetch (config "AMQP_PREFETCH_COUNT") count) ∧ ∃ uri democentralQueue gathererQueue thrown,
        config "AMQP_URI" = some uri ∧ config "AMQP_DEMOCENTRAL_QUEUE" = some democentralQueue ∧
        config "AMQP_GATHERER_QUEUE" = some gathererQueue ∧ e = .queueConnection thrown ∧
        (queueConnection 0 uri democentralQueue = .error thrown ∨
          (∃ made, queueConnection 0 uri democentralQueue = .ok made) ∧ queueConnection 1 uri gathererQueue = .error thrown)

variable {queueConnection config}

theorem required_some {key : String} {value : Utf16} (set : config key = some value) :
    (getRequiredEnvironmentVariable config key : Startup ε Utf16) = pure value := by
  rw [getRequiredEnvironmentVariable, set]

theorem required_none {key : String} (unset : config key = none) :
    (getRequiredEnvironmentVariable config key : Startup ε Utf16) = throw (.argumentNullException (missing key)) := by
  rw [getRequiredEnvironmentVariable, unset]

/-- The first variable that is missing is the one that is named, and nothing is printed. -/
theorem configureServices_missing {key : String} (first : requiredVariables.find? (fun key => config key = none) = some key)
    (before : List Utf16) :
    outcome (configureServices queueConnection config) before = .error (.argumentNullException (missing key)) ∧
      trace (configureServices queueConnection config) before = before := by
  cases uri : config "AMQP_URI" with
  | none =>
    simp only [requiredVariables, List.find?_cons, uri, decide_true, Option.some.injEq] at first
    subst first
    rw [configureServices, required_none uri]
    exact ⟨rfl, rfl⟩
  | some _ =>
    cases democentral : config "AMQP_DEMOCENTRAL_QUEUE" with
    | none =>
      simp only [requiredVariables, List.find?_cons, uri, democentral, reduceCtorEq, decide_true, decide_false,
        Option.some.injEq] at first
      subst first
      rw [configureServices, required_some uri, required_none democentral]
      exact ⟨rfl, rfl⟩
    | some _ =>
      cases gatherer : config "AMQP_GATHERER_QUEUE" with
      | none =>
        simp only [requiredVariables, List.find?_cons, uri, democentral, gatherer, reduceCtorEq, decide_true,
          decide_false, Option.some.injEq] at first
        subst first
        rw [configureServices, required_some uri, required_some democentral, required_none gatherer]
        exact ⟨rfl, rfl⟩
      | some _ => simp [requiredVariables, uri, democentral, gatherer] at first

theorem required_set (set : requiredVariables.find? (fun key => config key = none) = none) :
    ∃ uri democentralQueue gathererQueue, config "AMQP_URI" = some uri ∧
      config "AMQP_DEMOCENTRAL_QUEUE" = some democentralQueue ∧ config "AMQP_GATHERER_QUEUE" = some gathererQueue := by
  simp only [requiredVariables, List.find?_eq_none, decide_eq_true_eq, List.forall_mem_cons, ← ne_eq,
    Option.ne_none_iff_exists'] at set
  obtain ⟨⟨uri, first⟩, ⟨democentralQueue, second⟩, ⟨gathererQueue, third⟩, _⟩ := set
  exact ⟨uri, democentralQueue, gathererQueue, first, second, third⟩

/-- The two constructors, in their order. -/
def connections (queueConnection : ℕ → Utf16 → Utf16 → Except ε κ) (uri democentralQueue gathererQueue : Utf16)
    (count : UInt16) : Except (Failure ε) (Services κ) := do
  let outConnection ← (queueConnection 0 uri democentralQueue).mapError .queueConnection
  let inConnection ← (queueConnection 1 uri gathererQueue).mapError .queueConnection
  return ⟨outConnection, inConnection, count⟩

/-- The start once the required variables are there. -/
theorem configureServices_set {uri democentralQueue gathererQueue : Utf16} (first : config "AMQP_URI" = some uri)
    (second : config "AMQP_DEMOCENTRAL_QUEUE" = some democentralQueue)
    (third : config "AMQP_GATHERER_QUEUE" = some gathererQueue) (before : List Utf16) :
    (∀ count, Prefetch (config "AMQP_PREFETCH_COUNT") count →
      outcome (configureServices queueConnection config) before =
        connections queueConnection uri democentralQueue gathererQueue count) ∧
      ((∀ count, ¬ Prefetch (config "AMQP_PREFETCH_COUNT") count) →
        ∃ type, outcome (configureServices queueConnection config) before = .error (.parse type) ∧
          (type = .formatException ∨ type = .overflowException)) := by
  have connects : ∀ (count : UInt16) (lines : List Utf16), outcome (do
      let outConnection ← perform ((queueConnection 0 uri democentralQueue).mapError .queueConnection)
      let inConnection ← perform ((queueConnection 1 uri gathererQueue).mapError .queueConnection)
      return ⟨outConnection, inConnection, count⟩ : Startup ε (Services κ)) lines =
        connections queueConnection uri democentralQueue gathererQueue count := by
    intro count lines
    unfold connections
    cases queueConnection 0 uri democentralQueue with
    | error e => rfl
    | ok _ => cases queueConnection 1 uri gathererQueue <;> rfl
  rw [configureServices, required_some first, required_some second, required_some third]
  cases value : config "AMQP_PREFETCH_COUNT" with
  | none =>
    refine ⟨?_, fun none => absurd rfl (none 1)⟩
    rintro count rfl
    rw [getOptionalEnvironmentVariable, value]
    exact connects 1 _
  | some value' =>
    constructor
    · intro count numeral
      rw [getOptionalEnvironmentVariable, value, changeType, (ushortParse_ok_iff _ _).mpr numeral]
      exact connects count _
    · intro none
      cases parsed : ushortParse value' with
      | ok count => exact absurd ((ushortParse_ok_iff _ _).mp parsed) (none count)
      | error e =>
        rw [getOptionalEnvironmentVariable, value, changeType, parsed]
        exact ⟨e.type, rfl, ushortParse_error parsed⟩

theorem connections_ok_iff {uri democentralQueue gathererQueue : Utf16} {count : UInt16} {services : Services κ} :
    connections queueConnection uri democentralQueue gathererQueue count = .ok services ↔
      services.prefetchCount = count ∧ Connected queueConnection uri democentralQueue gathererQueue services := by
  obtain ⟨outConnection, inConnection, prefetchCount⟩ := services
  unfold connections
  cases first : queueConnection 0 uri democentralQueue with
  | error e =>
    simp only [Except.mapError, bind, Except.bind, reduceCtorEq, false_iff]
    rintro ⟨_, connected⟩
    have made := connected.outConnection
    rw [first] at made
    cases made
  | ok made =>
    cases second : queueConnection 1 uri gathererQueue with
    | error e =>
      simp only [Except.mapError, bind, Except.bind, reduceCtorEq, false_iff]
      rintro ⟨_, connected⟩
      have made' := connected.inConnection
      rw [second] at made'
      cases made'
    | ok made' =>
      constructor
      · rintro ⟨⟩
        exact ⟨rfl, first, second⟩
      · rintro ⟨same, outgoing, incoming⟩
        rw [first] at outgoing
        rw [second] at incoming
        cases same
        cases outgoing
        cases incoming
        rfl

theorem connections_error {uri democentralQueue gathererQueue : Utf16} {count : UInt16} {e : Failure ε}
    (failed : connections queueConnection uri democentralQueue gathererQueue count = .error e) :
    ∃ thrown, e = .queueConnection thrown ∧ (queueConnection 0 uri democentralQueue = .error thrown ∨
      (∃ made, queueConnection 0 uri democentralQueue = .ok made) ∧ queueConnection 1 uri gathererQueue = .error thrown) := by
  unfold connections at failed
  cases first : queueConnection 0 uri democentralQueue with
  | error thrown =>
    rw [first] at failed
    cases failed
    exact ⟨thrown, rfl, .inl rfl⟩
  | ok made =>
    cases second : queueConnection 1 uri gathererQueue with
    | error thrown =>
      rw [first, second] at failed
      cases failed
      exact ⟨thrown, rfl, .inr ⟨⟨made, rfl⟩, rfl⟩⟩
    | ok made' =>
      rw [first, second] at failed
      cases failed

/-- A prefetch count is read as one number only. -/
theorem prefetch_unique {value : Option Utf16} {m n : UInt16} (first : Prefetch value m) (second : Prefetch value n) : m = n := by
  cases value with
  | none => exact first.trans second.symm
  | some value =>
    have parsed := (ushortParse_ok_iff value m).mpr first
    rw [(ushortParse_ok_iff value n).mpr second] at parsed
    cases parsed
    rfl

variable (queueConnection config) in
/-- `ConfigureServices` comes to its end if and only if the required variables are
    there, the prefetch count is missing or a number of `ushort`, and both connections
    are made; otherwise the exception names the first variable that is missing, or it
    is one of the number's parser, or that of the first connection that is not made. -/
theorem configures_iff (before : List Utf16) :
    (∀ services, outcome (configureServices queueConnection config) before = .ok services ↔
      Configured queueConnection config services) ∧
      ∀ e, outcome (configureServices queueConnection config) before = .error e → Fails queueConnection config e := by
  cases required : requiredVariables.find? (fun key => config key = none) with
  | some key =>
    rw [(configureServices_missing required before).1]
    constructor
    · intro services
      simp only [reduceCtorEq, false_iff]
      rintro ⟨uri, democentralQueue, gathererQueue, first, second, third, _⟩
      simp [requiredVariables, first, second, third] at required
    · rintro e ⟨⟩
      simp only [Fails, required]
  | none =>
    obtain ⟨uri, democentralQueue, gathererQueue, first, second, third⟩ := required_set required
    obtain ⟨starts, fails⟩ := @configureServices_set _ _ queueConnection _ _ _ _ first second third before
    by_cases readable : ∃ count, Prefetch (config "AMQP_PREFETCH_COUNT") count
    · obtain ⟨count, prefetch⟩ := readable
      rw [starts count prefetch]
      constructor
      · intro services
        rw [connections_ok_iff]
        constructor
        · rintro ⟨rfl, connected⟩
          exact ⟨uri, democentralQueue, gathererQueue, first, second, third, prefetch, connected⟩
        · rintro ⟨uri', democentralQueue', gathererQueue', first', second', third', prefetch', connected⟩
          rw [first] at first'
          rw [second] at second'
          rw [third] at third'
          cases first'
          cases second'
          cases third'
          exact ⟨prefetch_unique prefetch' prefetch, connected⟩
      · intro e failed
        obtain ⟨thrown, same, order⟩ := connections_error failed
        simp only [Fails, required]
        exact .inr ⟨⟨count, prefetch⟩, uri, democentralQueue, gathererQueue, thrown, first, second, third, same, order⟩
    · obtain ⟨type, failed, kinds⟩ := fails (not_exists.mp readable)
      rw [failed]
      constructor
      · intro services
        simp only [reduceCtorEq, false_iff]
        rintro ⟨_, _, _, _, _, _, prefetch, _⟩
        exact readable ⟨_, prefetch⟩
      · rintro e ⟨⟩
        simp only [Fails, required, Failure.parse.injEq]
        exact .inl ⟨not_exists.mp readable, kinds⟩

end

end SteamworksService.Configuration
