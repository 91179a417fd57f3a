import SteamworksService.Client
import SteamworksService.Rendezvous
import SteamworksService.Responses

/-!
# Start-up

`main` of the connection up to its read loop: the main thread, the callback
thread that it starts, the Game Coordinator, and the client at the other end of
the FIFOs. No `open` fails, and no two uses of the map of listeners overlap. The
results say which messages find their listener, in whatever order the steps are
taken, and when the main thread gets to its loop.
-/
namespace SteamworksService.Startup
open Runs Client Responses
open Rendezvous (Side)

/-! ## States and steps -/

/-- What Steam says to `main`, in the order in which it is asked. -/
structure SteamChecks where
  restart : Bool
  init : Bool
  loggedOn : Bool
  coordinator : Bool

inductive Error
  | restart
  | initFailed
  | notLoggedOn
  | noCoordinator
  | noSession
  deriving DecidableEq, Repr

/-- The texts that `ReportError` is called with. -/
def Error.message : Error → String
  | .restart => "Steam requires a restart"
  | .initFailed => "SteamAPI_Init failed"
  | .notLoggedOn => "No user is currently logged into Steam"
  | .noCoordinator => "Failed to grab SteamGameCoordinator"
  | .noSession => "Failed to request session"

def SteamChecks.error (checks : SteamChecks) : Option Error :=
  if checks.restart then some .restart
  else if !checks.init then some .initFailed
  else if !checks.loggedOn then some .notLoggedOn
  else if !checks.coordinator then some .noCoordinator
  else none

inductive Fifo
  | swcpipei
  | swcpipeo
  deriving DecidableEq, Repr

/-- The order of the two calls of `open` in `main`. -/
def mainOrder : List Fifo := [.swcpipei, .swcpipeo]
/-- That order in `fifotest`, which has the names the other way round. -/
def fifotestOrder : List Fifo :=
  let szFifoO := .swcpipei
  let szFifoI := .swcpipeo
  [szFifoO, szFifoI]

/-- What the main thread does next. -/
inductive MainThread
  | check
  | addWelcome
  | start
  | wait
  | hello
  | openFifos
  | addMatchList
  | read
  | send
  | leave (error : Error)
  deriving DecidableEq, Repr

/-- The thread of `MessageLoop`: asleep, in `Steam_RunCallbacks`, or behind an exception. -/
inductive CallbackThread
  | off
  | asleep
  | running
  | ended
  deriving DecidableEq, Repr

/-- A message from the Game Coordinator: for the hello, for a request, or for neither. -/
inductive Incoming
  | welcome
  | reply (request : ℕ)
  | other (msgType : UInt32)
  deriving DecidableEq, Repr

def Incoming.msgType : Incoming → UInt32
  | .welcome => k_EMsgGCClientWelcome ||| PROTO_FLAG
  | .reply _ => k_EMsgGCCStrike15_v2_MatchList ||| PROTO_FLAG
  | .other msgType => msgType

structure State where
  main : MainThread
  callback : CallbackThread
  bReady : Bool
  /-- The calls of `AddListener`. -/
  listeners : List (UInt32 × MainListener)
  /-- How far `main` (left) and the client (right) are with their calls of `open`. -/
  opens : Rendezvous.State
  helloAccepted : Bool
  /-- How many requests were sent. -/
  requests : ℕ
  /-- The requests that were accepted and have not been replied to. -/
  accepted : List ℕ
  /-- The messages that are on their way. -/
  inbox : List Incoming
  /-- The messages that were delivered, each with the listener that was called. -/
  delivered : List (Incoming × Option MainListener)

inductive Label
  | check (checks : SteamChecks)
  | addWelcome
  | start
  | ready
  | hello (result : EGCResults)
  | opens (step : Rendezvous.Label)
  | opened
  | addMatchList
  | read
  | send (result : EGCResults)
  | runCallbacks
  | deliver
  | ran
  | throw
  | welcome
  | reply (request : ℕ)
  | push (msgType : UInt32)

def State.initial : State where
  main := .check
  callback := .off
  bReady := false
  listeners := []
  opens := Rendezvous.State.initial
  helloAccepted := false
  requests := 0
  accepted := []
  inbox := []
  delivered := []

/-- The listener that `OnMessageAvailable` calls for a message. -/
def listener (listeners : List (UInt32 × MainListener)) (msgType : UInt32) : Option MainListener :=
  if msgType &&& PROTO_FLAG ≠ 0 then lastRegistered listeners (msgId msgType) else none

section
variable (clientOrder : List Fifo)

/-- The order of each party. -/
def order : Side → List Fifo
  | .left => mainOrder
  | .right => clientOrder

/-- The main thread opens its ends only once it has got there. -/
def mayOpen (main : MainThread) : Rendezvous.Label → Bool
  | .call .left | .meet .left => main = .openFifos
  | .call .right | .meet .right => true

/-- One step of a thread or of what is around the program. The map `m_Listeners` is
    used by both threads without a lock; a call of `AddListener` and a look into the
    map are taken to be one step each, as if there were one. -/
def next (s : State) : Label → Option State
  | .check checks =>
    if s.main = .check then
      match checks.error with
      | some error => some { s with main := .leave error }
      | none => some { s with main := .addWelcome }
    else none
  | .addWelcome =>
    if s.main = .addWelcome then
      some { s with main := .start, listeners := s.listeners ++ [(k_EMsgGCClientWelcome, .welcomeListener)] }
    else none
  | .start => if s.main = .start then some { s with main := .wait, callback := .asleep } else none
  | .ready => if s.main = .wait ∧ s.bReady = true then some { s with main := .hello } else none
  | .hello result =>
    if s.main = .hello then
      if result ≠ .ok then some { s with main := .leave .noSession }
      else some { s with main := .openFifos, helloAccepted := true }
    else none
  | .opens step =>
    if mayOpen s.main step then (Rendezvous.next (order clientOrder) s.opens step).map ({ s with opens := · }) else none
  | .opened =>
    if s.main = .openFifos ∧ (s.opens .left).opened = mainOrder.length then some { s with main := .addMatchList }
    else none
  | .addMatchList =>
    if s.main = .addMatchList then
      some { s with main := .read, listeners := s.listeners ++ [(k_EMsgGCCStrike15_v2_MatchList, .matchlistListener)] }
    else none
  | .read => if s.main = .read then some { s with main := .send } else none
  | .send result =>
    if s.main = .send then
      some { s with
        main := .read
        requests := s.requests + 1
        accepted := if result = .ok then s.accepted ++ [s.requests] else s.accepted }
    else none
  | .runCallbacks => if s.callback = .asleep then some { s with callback := .running } else none
  | .deliver =>
    match s.callback, s.inbox with
    | .running, m :: inbox =>
      some { s with inbox := inbox, delivered := s.delivered ++ [(m, listener s.listeners m.msgType)] }
    | _, _ => none
  | .ran => if s.callback = .running then some { s with callback := .asleep, bReady := true } else none
  | .throw => if s.callback = .running then some { s with callback := .ended } else none
  | .welcome => if s.helloAccepted = true then some { s with inbox := s.inbox ++ [.welcome] } else none
  | .reply request =>
    if request ∈ s.accepted then
      some { s with accepted := s.accepted.erase request, inbox := s.inbox ++ [.reply request] }
    else none
  | .push msgType => some { s with inbox := s.inbox ++ [.other msgType] }

/-! ## Steps -/

/-- What a step can do. -/
inductive Took (s : State) : Label → State → Prop
  | refuse {checks : SteamChecks} {error : Error} (here : s.main = .check) (fails : checks.error = some error) :
      Took s (.check checks) { s with main := .leave error }
  | check {checks : SteamChecks} (here : s.main = .check) : Took s (.check checks) { s with main := .addWelcome }
  | addWelcome (here : s.main = .addWelcome) : Took s .addWelcome
      { s with main := .start, listeners := s.listeners ++ [(k_EMsgGCClientWelcome, .welcomeListener)] }
  | start (here : s.main = .start) : Took s .start { s with main := .wait, callback := .asleep }
  | ready (here : s.main = .wait) (bReady : s.bReady = true) : Took s .ready { s with main := .hello }
  | noSession {result : EGCResults} (here : s.main = .hello) : Took s (.hello result) { s with main := .leave .noSession }
  | hello {result : EGCResults} (here : s.main = .hello) :
      Took s (.hello result) { s with main := .openFifos, helloAccepted := true }
  | opens {step : Rendezvous.Label} {opens : Rendezvous.State}
      (opening : Rendezvous.next (order clientOrder) s.opens step = some opens) :
      Took s (.opens step) { s with opens := opens }
  | opened (here : s.main = .openFifos) (through : (s.opens .left).opened = mainOrder.length) :
      Took s .opened { s with main := .addMatchList }
  | addMatchList (here : s.main = .addMatchList) : Took s .addMatchList
      { s with main := .read, listeners := s.listeners ++ [(k_EMsgGCCStrike15_v2_MatchList, .matchlistListener)] }
  | read (here : s.main = .read) : Took s .read { s with main := .send }
  | send {result : EGCResults} (here : s.main = .send) : Took s (.send result)
      { s with
        main := .read
        requests := s.requests + 1
        accepted := if result = .ok then s.accepted ++ [s.requests] else s.accepted }
  | runCallbacks (here : s.callback = .asleep) : Took s .runCallbacks { s with callback := .running }
  | deliver {m : Incoming} {inbox : List Incoming} (here : s.callback = .running) (arrived : s.inbox = m :: inbox) :
      Took s .deliver { s with inbox := inbox, delivered := s.delivered ++ [(m, listener s.listeners m.msgType)] }
  | ran (here : s.callback = .running) : Took s .ran { s with callback := .asleep, bReady := true }
  | throw (here : s.callback = .running) : Took s .throw { s with callback := .ended }
  | welcome (asked : s.helloAccepted = true) : Took s .welcome { s with inbox := s.inbox ++ [.welcome] }
  | reply {request : ℕ} (member : request ∈ s.accepted) : Took s (.reply request)
      { s with accepted := s.accepted.erase request, inbox := s.inbox ++ [.reply request] }
  | push {msgType : UInt32} : Took s (.push msgType) { s with inbox := s.inbox ++ [.other msgType] }

variable {clientOrder} {s t : State} {l : Label}

theorem next_took (taken : next clientOrder s l = some t) : Took clientOrder s l t := by
  cases l with
  | check checks =>
    simp only [next] at taken
    split at taken
    · next here =>
      split at taken
      · next fails =>
        cases taken
        exact .refuse here fails
      · cases taken
        exact .check here
    · cases taken
  | hello result =>
    simp only [next] at taken
    split at taken
    · next here =>
      split at taken
      · cases taken
        exact .noSession here
      · cases taken
        exact .hello here
    · cases taken
  | opens step =>
    simp only [next] at taken
    split at taken
    · obtain ⟨opens, opening, rfl⟩ := Option.map_eq_some_iff.mp taken
      exact .opens opening
    · cases taken
  | deliver =>
    simp only [next] at taken
    split at taken
    · next running arrived =>
      cases taken
      exact .deliver running arrived
    · cases taken
  | push msgType =>
    cases taken
    exact .push
  | ready =>
    simp only [next, Option.ite_none_right_eq_some, Option.some.injEq] at taken
    obtain ⟨⟨here, bReady⟩, rfl⟩ := taken
    exact .ready here bReady
  | opened =>
    simp only [next, Option.ite_none_right_eq_some, Option.some.injEq] at taken
    obtain ⟨⟨here, through⟩, rfl⟩ := taken
    exact .opened here through
  | addWelcome | start | addMatchList | read | send result | runCallbacks | ran | throw | welcome | reply k =>
    simp only [next, Option.ite_none_right_eq_some, Option.some.injEq] at taken
    obtain ⟨here, rfl⟩ := taken
    constructor
    exact here

/-! ## Which listener is called -/

/-- What holds from the moment that the session is requested. -/
def MainThread.greeted : MainThread → Bool
  | .openFifos | .addMatchList | .read | .send => true
  | _ => false
/-- The main thread is in its read loop. -/
def MainThread.serving : MainThread → Bool
  | .read | .send => true
  | _ => false

/-- The listeners that are there when the main thread has got so far. -/
def MainThread.listeners : MainThread → Option (List (UInt32 × MainListener))
  | .check | .addWelcome => some []
  | .start | .wait | .hello | .openFifos | .addMatchList => some [(k_EMsgGCClientWelcome, .welcomeListener)]
  | .read | .send => some mainCalls
  | .leave _ => none

/-- The answers to the hello and to the requests, and nothing else, are sure to
    find their listeners. -/
def Finds : Incoming × Option MainListener → Prop
  | (.welcome, l) => l = some .welcomeListener
  | (.reply _, l) => l = some .matchlistListener
  | (.other _, _) => True

theorem listeners_of_serving {main : MainThread} (serving : main.serving = true) : main.listeners = some mainCalls := by
  cases main with
  | read | send => rfl
  | _ => cases serving

theorem greeted_of_serving {main : MainThread} (serving : main.serving = true) : main.greeted = true := by
  cases main with
  | read | send => rfl
  | _ => cases serving

theorem listeners_of_greeted {main : MainThread} (greeted : main.greeted = true) :
    main.listeners = some [(k_EMsgGCClientWelcome, .welcomeListener)] ∨ main.listeners = some mainCalls := by
  cases main with
  | openFifos | addMatchList => exact .inl rfl
  | read | send => exact .inr rfl
  | _ => cases greeted

structure Inv (s : State) : Prop where
  listeners : ∀ calls, s.main.listeners = some calls → s.listeners = calls
  greeted : s.helloAccepted = s.main.greeted
  asked : s.requests ≠ 0 → s.main.serving = true
  accepted : s.accepted ≠ [] → s.main.serving = true
  inbox : ∀ m ∈ s.inbox, (m = .welcome → s.helloAccepted = true) ∧ (∀ k, m = .reply k → s.main.serving = true)
  delivered : ∀ d ∈ s.delivered, Finds d

theorem inv_initial : Inv State.initial where
  listeners := by rintro calls ⟨⟩; rfl
  greeted := rfl
  asked none := absurd rfl none
  accepted none := absurd rfl none
  inbox := by simp [State.initial]
  delivered := by simp [State.initial]

/-- A step that neither the main thread nor a message takes. -/
theorem Inv.beside (inv : Inv s) {callback : CallbackThread} {bReady : Bool} {opens : Rendezvous.State} :
    Inv { s with callback := callback, bReady := bReady, opens := opens } :=
  ⟨inv.listeners, inv.greeted, inv.asked, inv.accepted, inv.inbox, inv.delivered⟩

/-- A step of the main thread on its way to the read loop. -/
theorem Inv.advance (inv : Inv s) (before : s.main.serving = false) {main : MainThread} {callback : CallbackThread}
    {listeners : List (UInt32 × MainListener)} {helloAccepted : Bool}
    (there : ∀ calls, main.listeners = some calls → listeners = calls) (greeted : helloAccepted = main.greeted)
    (keeps : s.main.greeted = true → main.greeted = true) :
    Inv { s with main := main, callback := callback, listeners := listeners, helloAccepted := helloAccepted } where
  listeners := there
  greeted := greeted
  asked asked := by
    rw [inv.asked asked] at before
    cases before
  accepted accepted := by
    rw [inv.accepted accepted] at before
    cases before
  inbox m member := by
    refine ⟨?_, ?_⟩
    · intro welcome
      have asked := (inv.inbox m member).1 welcome
      rw [inv.greeted] at asked
      exact greeted.trans (keeps asked)
    · intro k reply
      rw [(inv.inbox m member).2 k reply] at before
      cases before
  delivered := inv.delivered

/-- A step within the read loop. -/
theorem Inv.serve (inv : Inv s) (serving : s.main.serving = true) {main : MainThread} (serving' : main.serving = true)
    {requests : ℕ} {accepted : List ℕ} : Inv { s with main := main, requests := requests, accepted := accepted } where
  listeners calls same := by
    rw [listeners_of_serving serving'] at same
    cases same
    exact inv.listeners mainCalls (listeners_of_serving serving)
  greeted := by
    rw [inv.greeted, greeted_of_serving serving, greeted_of_serving serving']
  asked _ := serving'
  accepted _ := serving'
  inbox m member := ⟨(inv.inbox m member).1, fun _ _ => serving'⟩
  delivered := inv.delivered

/-- A message arrives. -/
theorem Inv.arrive (inv : Inv s) {m : Incoming} {accepted : List ℕ} (asked : m = .welcome → s.helloAccepted = true)
    (answers : ∀ k, m = .reply k → s.main.serving = true) (fewer : accepted ≠ [] → s.accepted ≠ []) :
    Inv { s with accepted := accepted, inbox := s.inbox ++ [m] } where
  listeners := inv.listeners
  greeted := inv.greeted
  asked := inv.asked
  accepted more := inv.accepted (fewer more)
  inbox m' member := by
    rcases List.mem_append.mp member with before | last
    · exact inv.inbox m' before
    · rw [List.mem_singleton.mp last]
      exact ⟨asked, answers⟩
  delivered := inv.delivered

/-- The listener that is called for a message from the head of the queue. -/
theorem Inv.finds (inv : Inv s) {m : Incoming} (member : m ∈ s.inbox) : Finds (m, listener s.listeners m.msgType) := by
  obtain ⟨asked, answers⟩ := inv.inbox m member
  cases m with
  | welcome =>
    show listener s.listeners (k_EMsgGCClientWelcome ||| PROTO_FLAG) = some .welcomeListener
    have greeted := asked rfl
    rw [inv.greeted] at greeted
    rcases listeners_of_greeted greeted with there | there
    · rw [inv.listeners _ there]
      decide
    · rw [inv.listeners _ there]
      decide
  | reply k =>
    rw [inv.listeners mainCalls (listeners_of_serving (answers k rfl))]
    show listener mainCalls (k_EMsgGCCStrike15_v2_MatchList ||| PROTO_FLAG) = some .matchlistListener
    decide
  | other msgType => trivial

theorem inv_step (s : State) (l : Label) (t : State) (inv : Inv s) (taken : next clientOrder s l = some t) : Inv t := by
  -- on the way to the read loop the listeners mostly stay
  have same : ∀ main : MainThread, main.listeners = s.main.listeners →
      ∀ calls, main.listeners = some calls → s.listeners = calls :=
    fun main kept calls here => inv.listeners calls (kept.symm.trans here)
  cases next_took taken with
  | refuse here fails =>
    exact inv.advance (by rw [here]; rfl) nofun (inv.greeted.trans (by rw [here]; rfl)) (by rw [here]; exact nofun)
  | check here =>
    exact inv.advance (by rw [here]; rfl) (same _ (by rw [here]; rfl)) (inv.greeted.trans (by rw [here]; rfl))
      (by rw [here]; exact nofun)
  | addWelcome here =>
    refine inv.advance (by rw [here]; rfl) ?_ (inv.greeted.trans (by rw [here]; rfl)) (by rw [here]; exact nofun)
    rintro calls ⟨⟩
    rw [inv.listeners [] (by rw [here]; rfl)]
    rfl
  | start here =>
    exact inv.advance (by rw [here]; rfl) (same _ (by rw [here]; rfl)) (inv.greeted.trans (by rw [here]; rfl))
      (by rw [here]; exact nofun)
  | ready here _ =>
    exact inv.advance (by rw [here]; rfl) (same _ (by rw [here]; rfl)) (inv.greeted.trans (by rw [here]; rfl))
      (by rw [here]; exact nofun)
  | noSession here =>
    exact inv.advance (by rw [here]; rfl) nofun (inv.greeted.trans (by rw [here]; rfl)) (by rw [here]; exact nofun)
  | hello here => exact inv.advance (by rw [here]; rfl) (same _ (by rw [here]; rfl)) rfl (fun _ => rfl)
  | opened here _ =>
    exact inv.advance (by rw [here]; rfl) (same _ (by rw [here]; rfl)) (inv.greeted.trans (by rw [here]; rfl)) (fun _ => rfl)
  | addMatchList here =>
    refine inv.advance (by rw [here]; rfl) ?_ (inv.greeted.trans (by rw [here]; rfl)) (fun _ => rfl)
    rintro calls ⟨⟩
    rw [inv.listeners _ (by rw [here]; rfl)]
    rfl
  | read here | send here => exact inv.serve (by rw [here]; rfl) rfl
  | opens _ | runCallbacks _ | ran _ | throw _ => exact inv.beside
  | @deliver m inbox here arrived =>
    refine ⟨inv.listeners, inv.greeted, inv.asked, inv.accepted, ?_, ?_⟩
    · intro m' member
      exact inv.inbox m' (by rw [arrived]; exact List.mem_cons_of_mem _ member)
    · intro d member
      rcases List.mem_append.mp member with before | last
      · exact inv.delivered d before
      · rw [List.mem_singleton.mp last]
        exact inv.finds (by rw [arrived]; exact List.mem_cons_self)
  | welcome asked => exact inv.arrive (fun _ => asked) nofun id
  | @reply k member =>
    have some : s.accepted ≠ [] := List.ne_nil_of_mem member
    exact inv.arrive nofun (fun _ _ => inv.accepted some) (fun _ => some)
  | push => exact inv.arrive nofun nofun id

/-- What holds of the messages and the listeners at any time. -/
structure Sound (s : State) : Prop where
  finds : ∀ d ∈ s.delivered, Finds d
  asked : s.requests ≠ 0 → s.listeners = mainCalls ∧ s.helloAccepted = true
  left : ∀ error, s.main = .leave error → s.requests = 0 ∧ s.helloAccepted = false

theorem Inv.sound (inv : Inv s) : Sound s where
  finds := inv.delivered
  asked asked := by
    have serving := inv.asked asked
    exact ⟨inv.listeners mainCalls (listeners_of_serving serving), inv.greeted.trans (greeted_of_serving serving)⟩
  left error left := by
    refine ⟨?_, inv.greeted.trans (by rw [left]; rfl)⟩
    by_contra asked
    have serving := inv.asked asked
    rw [left] at serving
    cases serving

variable (clientOrder) in
/-- However the threads, the coordinator and the client take their steps, the
    answers to the hello and to the requests find their listeners; nothing is asked
    for before both listeners are there, and nothing by a `main` that has given up. -/
theorem startup_sound (labels : List Label) (s : State) (ran : run (next clientOrder) State.initial labels = some s) :
    Sound s := by
  have inv : Inv s := run_invariant (A := fun _ => True)
    (fun s l t inv _ taken => inv_step s l t inv taken) inv_initial (fun _ _ => trivial) ran
  exact inv.sound

/-- A `MatchList` that nobody has asked for comes too early, and the reply to the
    first request finds the listener. -/
def sampleStart : List Label :=
  [.opens (.call .right), .check ⟨false, true, true, true⟩, .addWelcome, .start, .runCallbacks, .ran, .ready, .hello .ok,
    .push (k_EMsgGCCStrike15_v2_MatchList ||| PROTO_FLAG), .welcome, .runCallbacks, .deliver, .deliver,
    .opens (.call .left), .opens (.meet .left), .opens (.call .left), .opens (.meet .right), .opens (.call .right),
    .opens (.meet .left), .opened, .addMatchList, .read, .send .ok, .reply 0, .deliver, .ran]

theorem sampleStart_sound : ∃ s, run (next fifotestOrder) State.initial sampleStart = some s ∧ Sound s := by
  have runs : (run (next fifotestOrder) State.initial sampleStart).isSome = true := by
    decide +kernel
  obtain ⟨s, ran⟩ := Option.isSome_iff_exists.mp runs
  exact ⟨s, ran, startup_sound fifotestOrder sampleStart s ran⟩

/-! ## Getting to the read loop -/

/-- The main thread has given up, or it waits for a thread that has ended. -/
def Lost (s : State) : Prop :=
  (∃ error, s.main = .leave error) ∨ s.main = .wait ∧ s.bReady = false ∧ s.callback = .ended

/-- What the way to the read loop depends on. -/
structure OnTheWay (clientOrder : List Fifo) (s : State) : Prop where
  steady : Rendezvous.Steady (order clientOrder) s.opens
  started : s.main = .wait → s.callback ≠ .off

theorem onTheWay_step (s : State) (l : Label) (t : State) (holds : OnTheWay clientOrder s)
    (taken : next clientOrder s l = some t) : OnTheWay clientOrder t := by
  obtain ⟨steady, started⟩ := holds
  cases next_took taken with
  | opens opening => exact ⟨Rendezvous.steady_step steady opening, started⟩
  | deliver _ _ | welcome _ | reply _ | push => exact ⟨steady, started⟩
  | _ => exact ⟨steady, nofun⟩

theorem lost_step (s : State) (l : Label) (t : State) (lost : Lost s) (taken : next clientOrder s l = some t) : Lost t := by
  rcases lost with ⟨error, left⟩ | ⟨waits, unready, ended⟩
  · cases next_took taken with
    | opens | runCallbacks | deliver | ran | throw | welcome | reply | push => exact .inl ⟨error, left⟩
    | refuse here | check here | addWelcome here | start here | ready here | noSession here | hello here | opened here
    | addMatchList here | read here | send here =>
      rw [left] at here
      cases here
  · cases next_took taken with
    | opens | deliver | welcome | reply | push => exact .inr ⟨waits, unready, ended⟩
    | ready _ bReady =>
      rw [unready] at bReady
      cases bReady
    | runCallbacks here | ran here | throw here =>
      rw [ended] at here
      cases here
    | refuse here | check here | addWelcome here | start here | noSession here | hello here | opened here
    | addMatchList here | read here | send here =>
      rw [waits] at here
      cases here

/-- The main thread is not past its calls of `open`, and neither party past the
    place where the orders differ. -/
structure Short (k : ℕ) (s : State) : Prop where
  before : Rendezvous.Before k s.opens
  opening : s.main ≠ .addMatchList ∧ s.main.serving = false

theorem short_step {k : ℕ} (few : k < mainOrder.length) (distinct : clientOrder.Nodup)
    (agree : ∀ j < k, mainOrder[j]? = clientOrder[j]?) (differ : mainOrder[k]? ≠ clientOrder[k]?) (s : State) (l : Label)
    (t : State) (short : Short k s) (taken : next clientOrder s l = some t) : Short k t := by
  obtain ⟨before, opening⟩ := short
  cases next_took taken with
  | opens opens =>
    have all : ∀ p, (order clientOrder p).Nodup := by
      intro p
      cases p with
      | left => exact (by decide : mainOrder.Nodup)
      | right => exact distinct
    exact ⟨Rendezvous.before_step all agree differ before opens, opening⟩
  | opened here through =>
    have bound := (before .left).1
    omega
  | addMatchList here => exact absurd here opening.1
  | read here | send here =>
    rw [here] at opening
    cases opening.2
  | runCallbacks | deliver | ran | throw | welcome | reply | push => exact ⟨before, opening⟩
  | _ => exact ⟨before, nofun, rfl⟩

/-- With the FIFOs in another order the client and `main` never come together. -/
theorem short_of_order (distinct : clientOrder.Nodup) (different : clientOrder ≠ mainOrder) : ∃ k < mainOrder.length,
    (∀ j < k, mainOrder[j]? = clientOrder[j]?) ∧ mainOrder[k]? ≠ clientOrder[k]? := by
  match clientOrder, distinct, different with
  | [], _, _ => exact ⟨0, by decide, by simp, by simp [mainOrder]⟩
  | .swcpipeo :: _, _, _ => exact ⟨0, by decide, by simp, by simp [mainOrder]⟩
  | [.swcpipei], _, _ => exact ⟨1, by decide, by simp [mainOrder], by simp [mainOrder]⟩
  | .swcpipei :: .swcpipei :: _, distinct, _ => simp at distinct
  | [.swcpipei, .swcpipeo], _, different => exact absurd rfl different
  | .swcpipei :: .swcpipeo :: .swcpipei :: _, distinct, _ => simp at distinct
  | .swcpipei :: .swcpipeo :: .swcpipeo :: _, distinct, _ => simp at distinct

/-- The main thread can get to its read loop. -/
def Serves (clientOrder : List Fifo) (s : State) : Prop :=
  ∃ labels t, run (next clientOrder) s labels = some t ∧ t.main.serving = true

theorem Serves.step (taken : next clientOrder s l = some t) (serves : Serves clientOrder t) : Serves clientOrder s := by
  obtain ⟨labels, u, ran, serving⟩ := serves
  exact ⟨l :: labels, u, run_cons.mpr ⟨t, taken, ran⟩, serving⟩

/-- The calls of `open` go on while the main thread is at them. -/
theorem run_opens (here : s.main = .openFifos) {steps : List Rendezvous.Label} {opens : Rendezvous.State}
    (ran : run (Rendezvous.next (order clientOrder)) s.opens steps = some opens) :
    run (next clientOrder) s (steps.map .opens) = some { s with opens := opens } := by
  induction steps generalizing s with
  | nil =>
    cases ran
    rfl
  | cons step steps ih =>
    obtain ⟨m, taken, rest⟩ := run_cons.mp ran
    refine run_cons.mpr ⟨{ s with opens := m }, ?_, ih here rest⟩
    have may : mayOpen s.main step = true := by
      cases step with
      | call p | meet p => cases p <;> simp [mayOpen, here]
    simp only [next, may, taken, if_true, Option.map_some]

theorem serves_of_serving (serving : s.main.serving = true) : Serves clientOrder s := ⟨[], s, rfl, serving⟩

theorem serves_of_openFifos (same : clientOrder = mainOrder) (steady : Rendezvous.Steady (order clientOrder) s.opens)
    (here : s.main = .openFifos) : Serves clientOrder s := by
  subst same
  obtain ⟨steps, opens, ran, finished⟩ := @Rendezvous.finishes Fifo _ (order mainOrder) s.opens rfl steady
  have through : (opens .left).opened = mainOrder.length := finished .left
  have opened : next mainOrder { s with opens := opens } .opened = some { s with opens := opens, main := .addMatchList } := by
    simp only [next, here, through, and_self, if_true]
  have added : next mainOrder { s with opens := opens, main := .addMatchList } .addMatchList = some { s with
      opens := opens
      main := .read
      listeners := s.listeners ++ [(k_EMsgGCCStrike15_v2_MatchList, .matchlistListener)] } := by
    simp only [next, if_true]
  obtain ⟨labels, t, more, serving⟩ :=
    Serves.step opened (.step added (serves_of_serving rfl))
  exact ⟨_, t, run_append (run_opens here ran) more, serving⟩

theorem serves_of_hello (same : clientOrder = mainOrder) (steady : Rendezvous.Steady (order clientOrder) s.opens)
    (here : s.main = .hello) : Serves clientOrder s := by
  have taken : next clientOrder s (.hello .ok) = some { s with main := .openFifos, helloAccepted := true } := by
    simp only [next, here, ne_eq, not_true, if_true, if_false]
  exact .step taken (serves_of_openFifos same steady rfl)

theorem serves_of_wait (same : clientOrder = mainOrder) (steady : Rendezvous.Steady (order clientOrder) s.opens)
    (here : s.main = .wait) (alive : s.bReady = true ∨ s.callback = .asleep ∨ s.callback = .running) :
    Serves clientOrder s := by
  have ready : ∀ s : State, Rendezvous.Steady (order clientOrder) s.opens → s.main = .wait → s.bReady = true →
      Serves clientOrder s := by
    intro s steady here bReady
    have taken : next clientOrder s .ready = some { s with main := .hello } := by
      simp only [next, here, bReady, and_self, if_true]
    exact .step taken (serves_of_hello same steady rfl)
  have running : ∀ s : State, Rendezvous.Steady (order clientOrder) s.opens → s.main = .wait → s.callback = .running →
      Serves clientOrder s := by
    intro s steady here running
    have taken : next clientOrder s .ran = some { s with callback := .asleep, bReady := true } := by
      simp only [next, running, if_true]
    exact .step taken (ready _ steady here rfl)
  rcases alive with bReady | asleep | runs
  · exact ready s steady here bReady
  · have taken : next clientOrder s .runCallbacks = some { s with callback := .running } := by
      simp only [next, asleep, if_true]
    exact .step taken (running _ steady here rfl)
  · exact running s steady here runs

/-- From every place but the two that are lost the main thread can go on to its loop. -/
theorem OnTheWay.serves (holds : OnTheWay clientOrder s) (same : clientOrder = mainOrder) (notLost : ¬ Lost s) :
    Serves clientOrder s := by
  obtain ⟨steady, started⟩ := holds
  have fromStart : ∀ s : State, Rendezvous.Steady (order clientOrder) s.opens → s.main = .start → Serves clientOrder s := by
    intro s steady here
    have taken : next clientOrder s .start = some { s with main := .wait, callback := .asleep } := by
      simp only [next, here, if_true]
    exact .step taken (serves_of_wait same steady rfl (.inr (.inl rfl)))
  have fromAdd : ∀ s : State, Rendezvous.Steady (order clientOrder) s.opens → s.main = .addWelcome →
      Serves clientOrder s := by
    intro s steady here
    have taken : next clientOrder s .addWelcome = some { s with
        main := .start
        listeners := s.listeners ++ [(k_EMsgGCClientWelcome, .welcomeListener)] } := by
      simp only [next, here, if_true]
    exact .step taken (fromStart _ steady rfl)
  cases here : s.main with
  | check =>
    have taken : next clientOrder s (.check ⟨false, true, true, true⟩) = some { s with main := .addWelcome } := by
      simp only [next, here, if_true, SteamChecks.error]
      rfl
    exact .step taken (fromAdd _ steady rfl)
  | addWelcome => exact fromAdd s steady here
  | start => exact fromStart s steady here
  | wait =>
    apply serves_of_wait same steady here
    cases callback : s.callback with
    | off => exact absurd callback (started here)
    | asleep => exact .inr (.inl rfl)
    | running => exact .inr (.inr rfl)
    | ended =>
      left
      by_contra unready
      exact notLost (.inr ⟨here, by simpa using unready, callback⟩)
  | hello => exact serves_of_hello same steady here
  | openFifos => exact serves_of_openFifos same steady here
  | addMatchList =>
    have taken : next clientOrder s .addMatchList = some { s with
        main := .read
        listeners := s.listeners ++ [(k_EMsgGCCStrike15_v2_MatchList, .matchlistListener)] } := by
      simp only [next, here, if_true]
    exact .step taken (serves_of_serving rfl)
  | read | send => exact serves_of_serving (by rw [here]; rfl)
  | leave error => exact absurd (.inl ⟨error, here⟩) notLost

variable (clientOrder) in
/-- At any time, the main thread can still get to its read loop if and only if the
    client opens the FIFOs in the order of `main`, and `main` neither has given up
    nor waits for a callback thread that has ended before it was ready. -/
theorem serves_iff (distinct : clientOrder.Nodup) (labels : List Label) (s : State)
    (ran : run (next clientOrder) State.initial labels = some s) :
    Serves clientOrder s ↔ clientOrder = mainOrder ∧ ¬ Lost s := by
  constructor
  · rintro ⟨more, t, ran', serving⟩
    constructor
    · by_contra different
      obtain ⟨k, few, agree, differ⟩ := short_of_order distinct different
      have start : Short k State.initial := ⟨fun _ => ⟨Nat.zero_le _, Nat.zero_le _⟩, nofun, rfl⟩
      have short : Short k t := run_invariant (A := fun _ => True)
        (fun s l t short _ taken => short_step few distinct agree differ s l t short taken) start (fun _ _ => trivial)
        (run_append ran ran')
      rw [short.opening.2] at serving
      cases serving
    · intro lost
      have still : Lost t := run_invariant (A := fun _ => True)
        (fun s l t lost _ taken => lost_step s l t lost taken) lost (fun _ _ => trivial) ran'
      rcases still with ⟨error, left⟩ | ⟨waits, _⟩
      · rw [left] at serving
        cases serving
      · rw [waits] at serving
        cases serving
  · rintro ⟨same, notLost⟩
    have start : OnTheWay clientOrder State.initial := ⟨Rendezvous.steady_initial, nofun⟩
    have holds : OnTheWay clientOrder s := run_invariant (A := fun _ => True)
      (fun s l t holds _ taken => onTheWay_step s l t holds taken) start (fun _ _ => trivial) ran
    exact holds.serves same notLost

/-- `fifotest` opens the FIFOs as `main` does. -/
theorem fifotest_serves : ∃ s, run (next fifotestOrder) State.initial (sampleStart.take 5) = some s ∧
    (Serves fifotestOrder s ↔ fifotestOrder = mainOrder ∧ ¬ Lost s) := by
  have runs : (run (next fifotestOrder) State.initial (sampleStart.take 5)).isSome = true := by
    decide +kernel
  obtain ⟨s, ran⟩ := Option.isSome_iff_exists.mp runs
  exact ⟨s, ran, serves_iff fifotestOrder (by decide) (sampleStart.take 5) s ran⟩

end

end SteamworksService.Startup
