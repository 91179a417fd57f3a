import SteamworksService.Session

/-!
# The test client

`fifotest` once it has opened the FIFOs: it writes a sharecode, reads up to 255
bytes, prints them and goes on to the next sharecode. Whatever steps it and the
connection take, the lines that it prints are the responses to its sharecodes, in
their order, as long as no response is longer than one `read`.
-/
namespace SteamworksService.FifoTest
open Frames SharingCodes DecodeSharecode ReadLoop Responses Runs Connection Session

/-! ## States and steps -/

/-- The connection, what the client still writes, whether it is at `read`, its
    memory from `szMsg` on, and the lines that it has printed. -/
structure State where
  connection : Connection.State
  todo : List (List UInt8)
  waiting : Bool
  szMsg : List UInt8
  printed : List (List UInt8)

inductive Label
  | write
  | read
  | connection (l : Connection.Label)

/-- Behind the calls of `open`; nothing is known of the two arrays. -/
def State.initial (sharecodes : List (List UInt8)) (connectionMsg szMsg : List UInt8) : State where
  connection := Connection.State.initial connectionMsg
  todo := sharecodes
  waiting := false
  szMsg := szMsg
  printed := []

/-- `write(fileO, sc.c_str(), sc.length() + 1)`. -/
def write (s : Connection.State) (sharecode : List UInt8) : Connection.State :=
  { s with swcpipei := s.swcpipei ++ frame 0 s.requested sharecode, requested := s.requested + 1 }
/-- `read(fileI, szMsg, 255)`. -/
def read (s : Connection.State) : Connection.State :=
  { s with swcpipeo := s.swcpipeo.drop 255, responses := s.responses ++ [s.swcpipeo.take 255] }

def next (s : State) : Label → Option State
  | .write =>
    match s.waiting, s.todo with
    | false, sharecode :: todo =>
      some { s with connection := write s.connection sharecode, todo := todo, waiting := true }
    | _, _ => none
  | .read =>
    if s.waiting = true ∧ s.connection.swcpipeo ≠ [] then
      let szMsg := readInto s.szMsg ((s.connection.swcpipeo.take 255).map Prod.fst)
      some { s with
        connection := read s.connection, waiting := false, szMsg := szMsg, printed := s.printed ++ [cString szMsg] }
    else none
  | .connection (.request _) | .connection .take => none
  | .connection l => (Connection.next s.connection l).map ({ s with connection := · })

/-- What a step can do. -/
inductive Took (s : State) : Label → State → Prop
  | write {sharecode : List UInt8} {todo : List (List UInt8)} (ready : s.waiting = false)
      (more : s.todo = sharecode :: todo) :
      Took s .write { s with connection := FifoTest.write s.connection sharecode, todo := todo, waiting := true }
  | read (waiting : s.waiting = true) (arrived : s.connection.swcpipeo ≠ []) : Took s .read { s with
      connection := FifoTest.read s.connection
      waiting := false
      szMsg := readInto s.szMsg ((s.connection.swcpipeo.take 255).map Prod.fst)
      printed := s.printed ++ [cString (readInto s.szMsg ((s.connection.swcpipeo.take 255).map Prod.fst))] }
  | connection {l : Connection.Label} {c : Connection.State} (serving : Serving l)
      (taken : Connection.next s.connection l = some c) : Took s (.connection l) { s with connection := c }

theorem next_took {s t : State} {l : Label} (taken : next s l = some t) : Took s l t := by
  cases l with
  | write =>
    simp only [next] at taken
    split at taken
    · next ready more =>
      cases taken
      exact .write ready more
    · cases taken
  | read =>
    simp only [next, Option.ite_none_right_eq_some, Option.some.injEq] at taken
    obtain ⟨⟨waiting, arrived⟩, rfl⟩ := taken
    exact .read waiting arrived
  | connection l =>
    cases l with
    | request | take => cases taken
    | _ =>
      obtain ⟨c, step, rfl⟩ := Option.map_eq_some_iff.mp taken
      exact .connection trivial step

/-! ## What is printed -/

section
variable (coordinator : FullGameInfo → List MatchInfo → Prop)

/-- The connection and the coordinator take plain steps, and the replies are the coordinator's. -/
def Orderly (s : State) : Label → Prop
  | .connection l => Fair coordinator s.connection l
  | .write | .read => True

variable {coordinator}

variable (coordinator) in
/-- The sharecodes are those whose responses are printed, the one that the client
    waits for, and those that are left. -/
structure Follows (sharecodes : List (List UInt8)) (done : List (List UInt8)) (outstanding : Option (List UInt8))
    (s : State) : Prop where
  split : sharecodes = done ++ (outstanding.toList ++ s.todo)
  waiting : s.waiting = outstanding.isSome
  stands : Stands coordinator s.connection outstanding
  count : s.connection.requested = s.connection.responses.length + outstanding.toList.length
  printed : List.Forall₂ (fun sharecode line => Answers coordinator sharecode (line ++ [0])) done s.printed

/-- While the client waits, the connection or the coordinator or it can take a step. -/
theorem some_step {sharecodes done : List (List UInt8)} {outstanding : Option (List UInt8)} {s : State}
    (follows : Follows coordinator sharecodes done outstanding s) (unfinished : s.waiting = true ∨ s.todo ≠ []) :
    ∃ l t, next s l = some t := by
  obtain ⟨_, waits, ⟨inv, _⟩, count, _⟩ := follows
  cases outstanding with
  | none =>
    have ready : s.waiting = false := waits
    obtain ⟨sharecode, todo, more⟩ := List.exists_cons_of_ne_nil (unfinished.resolve_left (by simp [ready]))
    exact ⟨.write, _, by simp only [next, ready, more]; rfl⟩
  | some sharecode =>
    have waiting : s.waiting = true := waits
    have one : s.connection.requested = s.connection.responses.length + 1 := count
    rcases Session.some_step inv (by omega) with ⟨l, c, ⟨serving, _⟩, taken⟩ | ⟨c, taken⟩
    · refine ⟨.connection l, { s with connection := c }, ?_⟩
      cases l with
      | request | take => exact serving.elim
      | _ => simp only [next, taken, Option.map_some]
    · have arrived : s.connection.swcpipeo ≠ [] := by
        intro empty
        simp [Connection.next, empty, cut] at taken
      exact ⟨.read, _, by simp only [next, waiting, ne_eq, arrived, not_false_eq_true, and_self, if_true]; rfl⟩

end

end SteamworksService.FifoTest
