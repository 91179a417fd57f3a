import SteamworksService.Frames
import SteamworksService.MatchListener
import SteamworksService.ReadLoop
import SteamworksService.Reads
import SteamworksService.Responses
import SteamworksService.Runs

/-!
# The connection

The Linux connection while it serves a client: the read loop on one thread, the
`MatchList` listener on the callback thread, the two FIFOs between it and the
client, and the Game Coordinator. The client keeps to the 1-by-1 rule and the
coordinator answers every request that it accepted once. No `read` or `write`
fails. Every byte in a FIFO is tagged with the number of the sharecode that it
belongs to.
-/
namespace SteamworksService.Connection
open Frames DecodeSharecode ReadLoop Responses Runs

/-! ## States and steps -/

/-- A match of a `MatchList`: what the listener reads of
    `CDataGCCStrike15_v2_MatchInfo`, with at least one round-stats entry. -/
structure MatchInfo where
  matchtime : UInt32
  /-- The `map` of each entry. -/
  roundstatsall : List (List UInt8)
  rounds : roundstatsall ≠ []

/-- `match.roundstatsall(match.roundstatsall_size() - 1).map()`. -/
def MatchInfo.link (info : MatchInfo) : List UInt8 := info.roundstatsall.getLast info.rounds

/-- The read loop: at `read`, at `SendMessageToGC`, or behind it. -/
inductive ReadLoop
  | reading
  | sending (sharecode : ℕ) (fgi : FullGameInfo)
  | sent (sharecode : ℕ) (result : EGCResults)

/-- The callback thread: waiting for a message, or in the listener's loop. -/
inductive Listener
  | idle
  | running (sharecode : ℕ) (matchList : List MatchInfo) (i : ℕ)

structure State where
  swcpipei : List (UInt8 × ℕ)
  swcpipeo : List (UInt8 × ℕ)
  szMsg : List UInt8
  loop : ReadLoop
  /-- The requests that the coordinator has accepted and not answered. -/
  accepted : List (ℕ × FullGameInfo)
  listener : Listener
  /-- How many sharecodes the client has written. -/
  requested : ℕ
  /-- The responses that the client has taken, with their terminators. -/
  responses : List (List (UInt8 × ℕ))

inductive Label
  | request (sharecode : List UInt8)
  | read
  | send (result : EGCResults)
  | report
  | answer (i : ℕ) (matchList : List MatchInfo)
  | listen
  | take

def State.initial (szMsg : List UInt8) : State := ⟨[], [], szMsg, .reading, [], .idle, 0, []⟩

def next (s : State) : Label → Option State
  | .request sharecode =>
    if 0 ∉ sharecode ∧ s.requested = s.responses.length then
      some { s with swcpipei := s.swcpipei ++ frame 0 s.requested sharecode, requested := s.requested + 1 }
    else none
  | .read =>
    match s.loop, s.swcpipei with
    | .reading, (_, sharecode) :: _ =>
      let szMsg := readInto s.szMsg ((s.swcpipei.take 255).map Prod.fst)
      some { s with swcpipei := s.swcpipei.drop 255, szMsg := szMsg, loop := .sending sharecode (fullGameInfo szMsg) }
    | _, _ => none
  | .send result =>
    match s.loop with
    | .sending sharecode fgi =>
      some { s with
        loop := .sent sharecode result
        accepted := if result = .ok then s.accepted ++ [(sharecode, fgi)] else s.accepted }
    | _ => none
  | .report =>
    match s.loop with
    | .sent sharecode result =>
      some { s with loop := .reading, swcpipeo := s.swcpipeo ++ (afterSend result).map (·, sharecode) }
    | _ => none
  -- the coordinator's reply reaches the listener
  | .answer i matchList =>
    match s.listener, s.accepted[i]? with
    | .idle, some (sharecode, _) =>
      some { s with accepted := s.accepted.eraseIdx i, listener := .running sharecode matchList 0 }
    | _, _ => none
  | .listen =>
    match s.listener with
    | .running sharecode matchList i =>
      match matchList[i]? with
      | some info =>
        some { s with
          listener := .running sharecode matchList (i + 1)
          swcpipeo := s.swcpipeo ++ (demo info.link info.matchtime).map (·, sharecode) }
      | none =>
        some { s with
          listener := .idle
          swcpipeo := if matchList = [] then s.swcpipeo ++ sharecodeTooOld.map (·, sharecode) else s.swcpipeo }
    | _ => none
  | .take =>
    match cut 0 s.swcpipeo with
    | some (response, rest) =>
      if s.responses.length < s.requested then some { s with swcpipeo := rest, responses := s.responses ++ [response] }
      else none
    | none => none

/-! ## Pairing -/

/-- The `k`-th response was written for the `k`-th sharecode, and nothing is
    left to be read when the client may write its next sharecode. -/
structure Paired (s : State) : Prop where
  inOrder : ∀ (k : ℕ) (response : List (UInt8 × ℕ)), s.responses[k]? = some response → ∀ b ∈ response, b.2 = k
  nothingLeft : s.requested = s.responses.length → s.swcpipeo = []

/-- A sharecode that fits one `read`, and a `MatchList` with at most one match,
    whose link has no NUL in it. -/
def Plain : Label → Prop
  | .request sharecode => sharecode.length ≤ 254
  | .answer _ matchList => matchList.length ≤ 1 ∧ ∀ info ∈ matchList, 0 ∉ info.link
  | _ => True

instance : DecidablePred Plain
  | .request sharecode => inferInstanceAs (Decidable (sharecode.length ≤ 254))
  | .answer _ matchList =>
    inferInstanceAs (Decidable (matchList.length ≤ 1 ∧ ∀ info ∈ matchList, 0 ∉ info.link))
  | .read | .send _ | .report | .listen | .take => .isTrue trivial

/-! ## The invariant -/

/-- The sharecodes that the parts of the system still owe a response for. -/
def ReadLoop.owes : ReadLoop → List ℕ
  | .reading => []
  | .sending sharecode _ => [sharecode]
  | .sent sharecode result => if result = .ok then [] else [sharecode]
def Listener.owes : Listener → List ℕ
  | .idle => []
  | .running sharecode _ i => if i = 0 then [sharecode] else []
/-- The sharecode that the client is waiting for. -/
def State.awaited (s : State) : List ℕ := if s.requested = s.responses.length then [] else [s.responses.length]

def Listener.Plain : Listener → Prop
  | .idle => True
  | .running _ matchList i => matchList.length ≤ 1 ∧ i ≤ matchList.length ∧ ∀ info ∈ matchList, 0 ∉ info.link

/-- The one response that is owed has one place in the system: a request that
    is not read yet, the read loop, the coordinator, the listener, or a
    response that is not taken yet. -/
structure Inv (s : State) : Prop where
  oneByOne : s.requested ≤ s.responses.length + 1
  owed : ∃ requests responses, Framed 0 (·.length ≤ 254) s.swcpipei requests ∧
    Framed 0 (fun _ => True) s.swcpipeo responses ∧
    requests ++ (s.loop.owes ++ (s.accepted.map Prod.fst ++ (s.listener.owes ++ responses))) = s.awaited
  plain : s.listener.Plain
  inOrder : ∀ (k : ℕ) (response : List (UInt8 × ℕ)), s.responses[k]? = some response → ∀ b ∈ response, b.2 = k

theorem inv_initial (szMsg : List UInt8) : Inv (State.initial szMsg) where
  oneByOne := by simp [State.initial]
  owed := ⟨[], [], rfl, rfl, rfl⟩
  plain := trivial
  inOrder k response found := by simp [State.initial] at found

theorem Inv.paired {s : State} (inv : Inv s) : Paired s where
  inOrder := inv.inOrder
  nothingLeft ready := by
    obtain ⟨requests, responses, _, framed, total⟩ := inv.owed
    rw [State.awaited, if_pos ready] at total
    have none : responses = [] := by
      simp only [List.append_eq_nil_iff] at total
      exact total.2.2.2.2
    subst none
    exact framed

theorem awaited_of_waiting {s : State} (waiting : s.requested ≠ s.responses.length) :
    s.awaited = [s.responses.length] := if_neg waiting

/-- A sharecode that is owed in one place is the awaited one and owed nowhere else. -/
theorem sole {s : State} (before : List ℕ) {after : List ℕ} {k : ℕ} (total : before ++ k :: after = s.awaited) :
    s.requested ≠ s.responses.length ∧ k = s.responses.length ∧ before = [] ∧ after = [] := by
  by_cases ready : s.requested = s.responses.length
  · rw [State.awaited, if_pos ready] at total
    simp at total
  · rw [awaited_of_waiting ready] at total
    cases before with
    | nil =>
      obtain ⟨rfl, rfl⟩ := List.cons.inj total
      exact ⟨ready, rfl, rfl, rfl⟩
    | cons j before =>
      have empty := (List.cons.inj total).2
      simp at empty

section
variable {s : State}

theorem Inv.request (inv : Inv s) {sharecode : List UInt8} (noNul : 0 ∉ sharecode) (fits : sharecode.length ≤ 254)
    (ready : s.requested = s.responses.length) :
    Inv { s with swcpipei := s.swcpipei ++ frame 0 s.requested sharecode, requested := s.requested + 1 } := by
  obtain ⟨requests, responses, framedI, framedO, total⟩ := inv.owed
  rw [State.awaited, if_pos ready] at total
  simp only [List.append_eq_nil_iff] at total
  obtain ⟨rfl, loop, accepted, listener, rfl⟩ := total
  refine ⟨by simp [ready], ⟨[s.requested], [], framedI.append fits noNul, framedO, ?_⟩, inv.plain, inv.inOrder⟩
  rw [awaited_of_waiting (by simp [ready])]
  simp [loop, accepted, listener, ready]

theorem Inv.read (inv : Inv s) {b : UInt8} {sharecode : ℕ} {more : List (UInt8 × ℕ)}
    (arrived : s.swcpipei = (b, sharecode) :: more) (szMsg : List UInt8) (fgi : FullGameInfo) :
    Inv { s with swcpipei := s.swcpipei.drop 255, szMsg := szMsg, loop := .sending sharecode fgi } := by
  obtain ⟨requests, responses, framedI, framedO, total⟩ := inv.owed
  cases requests with
  | nil =>
    rw [show s.swcpipei = [] from framedI] at arrived
    cases arrived
  | cons k requests =>
    rw [List.cons_append] at total
    obtain ⟨waiting, rfl, _, nowhere⟩ := sole [] total
    simp only [List.append_eq_nil_iff] at nowhere
    obtain ⟨rfl, _, accepted, listener, rfl⟩ := nowhere
    obtain ⟨code, rest, fits, _, whole, nothing⟩ := framedI
    rw [show rest = [] from nothing, List.append_nil] at whole
    have all : s.swcpipei.drop 255 = [] := by
      rw [whole, List.drop_eq_nil_iff, frame, List.length_map, List.length_append, List.length_singleton]
      omega
    have same : sharecode = s.responses.length := by
      have member : (b, sharecode) ∈ s.swcpipei := by simp [arrived]
      rw [whole] at member
      exact tag_of_mem_frame member
    refine ⟨inv.oneByOne, ⟨[], [], all, framedO, ?_⟩, inv.plain, inv.inOrder⟩
    show _ = s.awaited
    rw [awaited_of_waiting waiting]
    simp [ReadLoop.owes, accepted, listener, same]

theorem Inv.send (inv : Inv s) {sharecode : ℕ} {fgi : FullGameInfo} (loop : s.loop = .sending sharecode fgi)
    (result : EGCResults) :
    Inv { s with
      loop := .sent sharecode result
      accepted := if result = .ok then s.accepted ++ [(sharecode, fgi)] else s.accepted } := by
  obtain ⟨requests, responses, framedI, framedO, total⟩ := inv.owed
  rw [loop, ReadLoop.owes, List.singleton_append] at total
  obtain ⟨waiting, rfl, rfl, nowhere⟩ := sole _ total
  simp only [List.append_eq_nil_iff] at nowhere
  obtain ⟨accepted, listener, rfl⟩ := nowhere
  refine ⟨inv.oneByOne, ⟨[], [], framedI, framedO, ?_⟩, inv.plain, inv.inOrder⟩
  show _ = s.awaited
  rw [awaited_of_waiting waiting]
  by_cases ok : result = .ok
  · simp [ReadLoop.owes, ok, accepted, listener]
  · simp [ReadLoop.owes, ok, accepted, listener]

theorem Inv.report (inv : Inv s) {sharecode : ℕ} {result : EGCResults} (loop : s.loop = .sent sharecode result) :
    Inv { s with loop := .reading, swcpipeo := s.swcpipeo ++ (afterSend result).map (·, sharecode) } := by
  obtain ⟨requests, responses, framedI, framedO, total⟩ := inv.owed
  rw [loop] at total
  by_cases ok : result = .ok
  · rw [ReadLoop.owes, if_pos ok] at total
    refine ⟨inv.oneByOne, ⟨requests, responses, framedI, ?_, total⟩, inv.plain, inv.inOrder⟩
    simpa [afterSend, ok] using framedO
  · rw [ReadLoop.owes, if_neg ok, List.singleton_append] at total
    obtain ⟨waiting, rfl, rfl, nowhere⟩ := sole _ total
    simp only [List.append_eq_nil_iff] at nowhere
    obtain ⟨accepted, listener, rfl⟩ := nowhere
    have written := framedO.append (t := s.responses.length) (s := bytes "--demo UNKNOWN_ERROR".toList)
      trivial (by decide)
    refine ⟨inv.oneByOne, ⟨[], [s.responses.length], framedI, ?_, ?_⟩, inv.plain, inv.inOrder⟩
    · rw [afterSend, if_pos ok]
      exact written
    · show _ = s.awaited
      rw [awaited_of_waiting waiting]
      simp [ReadLoop.owes, accepted, listener]

theorem Inv.answer (inv : Inv s) {i sharecode : ℕ} {fgi : FullGameInfo} {matchList : List MatchInfo}
    (accepted : s.accepted[i]? = some (sharecode, fgi)) (few : matchList.length ≤ 1)
    (noNul : ∀ info ∈ matchList, 0 ∉ info.link) :
    Inv { s with accepted := s.accepted.eraseIdx i, listener := .running sharecode matchList 0 } := by
  obtain ⟨requests, responses, framedI, framedO, total⟩ := inv.owed
  have member : sharecode ∈ s.accepted.map Prod.fst :=
    List.mem_map.mpr ⟨_, List.mem_of_getElem? accepted, rfl⟩
  cases pending : s.accepted with
  | nil =>
    rw [pending] at accepted
    cases accepted
  | cons first more =>
    rw [pending, List.map_cons, List.cons_append, ← List.append_assoc] at total
    obtain ⟨waiting, same, before, nowhere⟩ := sole _ total
    simp only [List.append_eq_nil_iff, List.map_eq_nil_iff] at nowhere before
    obtain ⟨rfl, _, rfl⟩ := nowhere
    obtain ⟨rfl, loop⟩ := before
    have zero : i = 0 := by
      by_contra other
      rw [pending, List.getElem?_eq_none (by simp; omega)] at accepted
      cases accepted
    subst zero
    rw [pending] at accepted
    cases accepted
    refine ⟨inv.oneByOne, ⟨[], [], framedI, framedO, ?_⟩, ⟨few, Nat.zero_le _, noNul⟩, inv.inOrder⟩
    show _ = s.awaited
    rw [awaited_of_waiting waiting]
    simpa [loop, Listener.owes] using same

theorem demo_frame {link : List UInt8} (noNul : 0 ∉ link) (matchtime : UInt32) (sharecode : ℕ) :
    ∃ message, 0 ∉ message ∧ (demo link matchtime).map (·, sharecode) = frame 0 sharecode message := by
  refine ⟨_, ?_, rfl⟩
  have digits : ∀ c ∈ Nat.toDigits 10 matchtime.toNat, UInt8.ofNat c.toNat ≠ 0 := by
    intro c member zero
    have range := digits_plain c member
    have small := congrArg UInt8.toNat zero
    rw [UInt8.toNat_ofNat', Nat.mod_eq_of_lt (by omega)] at small
    simp at small
    omega
  simp only [sPipeMsg, List.mem_append, not_or]
  refine ⟨⟨⟨by decide, noNul⟩, by decide⟩, ?_⟩
  intro member
  obtain ⟨c, inside, zero⟩ := List.mem_map.mp member
  exact digits c inside zero

theorem Inv.write (inv : Inv s) {sharecode i : ℕ} {matchList : List MatchInfo} {info : MatchInfo}
    (listener : s.listener = .running sharecode matchList i) (found : matchList[i]? = some info) :
    Inv { s with
      listener := .running sharecode matchList (i + 1)
      swcpipeo := s.swcpipeo ++ (demo info.link info.matchtime).map (·, sharecode) } := by
  obtain ⟨requests, responses, framedI, framedO, total⟩ := inv.owed
  have plain := inv.plain
  rw [listener] at plain
  obtain ⟨few, _, noNul⟩ := plain
  obtain ⟨inside, _⟩ := List.getElem?_eq_some_iff.mp found
  have zero : i = 0 := by omega
  subst zero
  rw [listener, Listener.owes, if_pos rfl, List.singleton_append, ← List.append_assoc, ← List.append_assoc] at total
  obtain ⟨waiting, rfl, before, rfl⟩ := sole _ total
  simp only [List.append_eq_nil_iff] at before
  obtain ⟨⟨rfl, loop⟩, accepted⟩ := before
  obtain ⟨message, noNul', written⟩ := demo_frame (noNul info (List.mem_of_getElem? found)) info.matchtime
    s.responses.length
  refine ⟨inv.oneByOne, ⟨[], [s.responses.length], framedI, ?_, ?_⟩, ⟨few, inside, noNul⟩, inv.inOrder⟩
  · rw [written]
    exact framedO.append trivial noNul'
  · show _ = s.awaited
    rw [awaited_of_waiting waiting]
    simp [Listener.owes, loop, accepted]

theorem Inv.finish (inv : Inv s) {sharecode i : ℕ} {matchList : List MatchInfo}
    (listener : s.listener = .running sharecode matchList i) (finished : matchList[i]? = none) :
    Inv { s with
      listener := .idle
      swcpipeo := if matchList = [] then s.swcpipeo ++ sharecodeTooOld.map (·, sharecode) else s.swcpipeo } := by
  obtain ⟨requests, responses, framedI, framedO, total⟩ := inv.owed
  have plain := inv.plain
  rw [listener] at plain
  obtain ⟨few, bound, noNul⟩ := plain
  have outside := List.getElem?_eq_none_iff.mp finished
  by_cases empty : matchList = []
  · subst empty
    have zero : i = 0 := by simpa using bound
    subst zero
    rw [listener, Listener.owes, if_pos rfl, List.singleton_append, ← List.append_assoc, ← List.append_assoc] at total
    obtain ⟨waiting, rfl, before, rfl⟩ := sole _ total
    simp only [List.append_eq_nil_iff] at before
    obtain ⟨⟨rfl, loop⟩, accepted⟩ := before
    have written := framedO.append (t := s.responses.length)
      (s := bytes "--demo SHARECODE_TOO_OLD".toList) trivial (by decide)
    refine ⟨inv.oneByOne, ⟨[], [s.responses.length], framedI, ?_, ?_⟩, trivial, inv.inOrder⟩
    · rw [if_pos rfl]
      exact written
    · show _ = s.awaited
      rw [awaited_of_waiting waiting]
      simp [Listener.owes, loop, accepted]
  · have started : i ≠ 0 := by
      rintro rfl
      exact empty (List.length_eq_zero_iff.mp (by omega))
    rw [listener, Listener.owes, if_neg started] at total
    refine ⟨inv.oneByOne, ⟨requests, responses, framedI, ?_, total⟩, trivial, inv.inOrder⟩
    rw [if_neg empty]
    exact framedO

theorem Inv.take (inv : Inv s) {response rest : List (UInt8 × ℕ)} (first : cut 0 s.swcpipeo = some (response, rest))
    (waiting : s.responses.length < s.requested) :
    Inv { s with swcpipeo := rest, responses := s.responses ++ [response] } := by
  obtain ⟨requests, responses, framedI, framedO, total⟩ := inv.owed
  cases responses with
  | nil =>
    rw [show s.swcpipeo = [] from framedO] at first
    cases first
  | cons k responses =>
    rw [← List.append_assoc, ← List.append_assoc, ← List.append_assoc] at total
    obtain ⟨_, rfl, before, rfl⟩ := sole _ total
    simp only [List.append_eq_nil_iff] at before
    obtain ⟨⟨⟨rfl, loop⟩, accepted⟩, listener⟩ := before
    obtain ⟨message, more, _, noNul, whole, nothing⟩ := framedO
    rw [whole, cut_frame noNul] at first
    cases first
    have one := inv.oneByOne
    refine ⟨by simp; omega, ⟨[], [], framedI, nothing, ?_⟩, inv.plain, ?_⟩
    · have ready : s.requested = (s.responses ++ [frame 0 s.responses.length message]).length := by
        simp
        omega
      rw [State.awaited, if_pos ready]
      simp [loop, accepted, listener]
    · intro k response found b member
      rw [List.getElem?_append] at found
      split at found
      · exact inv.inOrder k response found b member
      · next above =>
        obtain ⟨last, rfl⟩ := List.getElem?_eq_some_iff.mp found
        have same : k = s.responses.length := by
          simp at last
          omega
        subst same
        simp only [Nat.sub_self, List.getElem_cons_zero] at member
        exact tag_of_mem_frame member

end

theorem inv_step (s : State) (l : Label) (t : State) (inv : Inv s) (plain : Plain l) (taken : next s l = some t) :
    Inv t := by
  cases l with
  | request sharecode =>
    simp only [next, Option.ite_none_right_eq_some, Option.some.injEq] at taken
    obtain ⟨⟨noNul, ready⟩, rfl⟩ := taken
    exact inv.request noNul plain ready
  | read =>
    simp only [next] at taken
    split at taken
    · next b sharecode more _ arrived =>
      cases taken
      exact inv.read arrived _ _
    · cases taken
  | send result =>
    simp only [next] at taken
    split at taken
    · next sharecode fgi loop =>
      cases taken
      exact inv.send loop result
    · cases taken
  | report =>
    simp only [next] at taken
    split at taken
    · next sharecode result loop =>
      cases taken
      exact inv.report loop
    · cases taken
  | answer i matchList =>
    simp only [next] at taken
    split at taken
    · next sharecode fgi _ accepted =>
      cases taken
      exact inv.answer accepted plain.1 plain.2
    · cases taken
  | listen =>
    simp only [next] at taken
    split at taken
    · next sharecode matchList i listener =>
      split at taken
      · next info found =>
        cases taken
        exact inv.write listener found
      · next finished =>
        cases taken
        exact inv.finish listener finished
    · cases taken
  | take =>
    simp only [next] at taken
    split at taken
    · next response rest first =>
      split at taken
      · next waiting =>
        cases taken
        exact inv.take first waiting
      · cases taken
    · cases taken

/-- In every run whose sharecodes fit one `read` and whose `MatchList`s hold at
    most one match, every response is paired with its request. -/
theorem responses_paired (szMsg : List UInt8) (labels : List Label) (plain : ∀ l ∈ labels, Plain l) (s : State)
    (ran : run next (State.initial szMsg) labels = some s) : Paired s :=
  (run_invariant (P := Inv) inv_step (inv_initial szMsg) plain ran).paired

/-! ## The steps as passes of the two loops -/

/-- A read of a whole request is a pass of the read loop, and what is behind
    `szMsg` has no say in it. -/
theorem read_pass {s t : State} (taken : next s .read = some t) (terminated : 0 ∈ (s.swcpipei.take 255).map Prod.fst)
    (beyond : List UInt8) : ∃ (c : Reads.Chunk) (sharecode : ℕ) (fgi : FullGameInfo),
      c.bytes = (s.swcpipei.take 255).map Prod.fst ∧ t.loop = .sending sharecode fgi ∧
        Reads.pass beyond s.szMsg (.chunk c) = (t.szMsg, some fgi) := by
  have nonempty : (s.swcpipei.take 255).map Prod.fst ≠ [] := List.ne_nil_of_mem terminated
  have fits : ((s.swcpipei.take 255).map Prod.fst).length ≤ 255 := by simp
  let c : Reads.Chunk := ⟨_, nonempty, fits⟩
  have sends : (Reads.pass beyond s.szMsg (.chunk c)).2 = some (fullGameInfo (readInto s.szMsg c.bytes)) := by
    rw [Reads.pass_of_terminated s.szMsg terminated, readInto]
    exact congrArg some (Reads.fullGameInfo_congr (Reads.cString_of_terminated terminated _).symm)
  simp only [next] at taken
  split at taken
  · next sharecode _ _ _ =>
    cases taken
    exact ⟨c, sharecode, _, rfl, rfl, Prod.ext rfl sends⟩
  · cases taken

/-- The match as the listener reads it. -/
def MatchInfo.read (info : MatchInfo) : MatchListener.MatchInfo :=
  ⟨some info.matchtime, info.roundstatsall.map (fun map => ⟨some map⟩)⟩

theorem MatchInfo.response_read (info : MatchInfo) : info.read.response = demo info.link info.matchtime := by
  have last : info.read.roundstatsall.getLast? = some ⟨some info.link⟩ := by
    rw [MatchInfo.read, List.getLast?_map, List.getLast?_eq_some_getLast info.rounds]
    rfl
  rw [MatchListener.MatchInfo.response, last]
  rfl

theorem listen_rest {s : State} {sharecode : ℕ} {matchList : List MatchInfo} {i : ℕ}
    (listener : s.listener = .running sharecode matchList i) (inside : i ≤ matchList.length) :
    run next s (List.replicate (matchList.length - i + 1) .listen) = some { s with
      listener := .idle
      swcpipeo := s.swcpipeo ++ (((matchList.drop i).map (MatchListener.MatchInfo.response ∘ MatchInfo.read)).flatten ++
        if matchList = [] then sharecodeTooOld else []).map (·, sharecode) } := by
  induction left : matchList.length - i generalizing s i with
  | zero =>
    have finished : matchList[i]? = none := List.getElem?_eq_none (by omega)
    have rest : matchList.drop i = [] := List.drop_eq_nil_of_le (by omega)
    simp only [Nat.zero_add, List.replicate_one, run, next, listener, finished, rest]
    by_cases empty : matchList = []
    · simp [empty]
    · simp [empty]
  | succ n ih =>
    have below : i < matchList.length := by omega
    have found : matchList[i]? = some matchList[i] := List.getElem?_eq_getElem below
    rw [List.replicate_succ, run, List.drop_eq_getElem_cons below]
    simp only [next, listener, found, Option.bind_some]
    rw [ih rfl (by omega) (by omega)]
    simp only [List.map_cons, List.flatten_cons, List.map_append, List.append_assoc, Function.comp_apply,
      MatchInfo.response_read]

/-- Once the callback thread is done with a reply, it has written what the
    listener writes for it. -/
theorem listen_run {s : State} {sharecode : ℕ} {matchList : List MatchInfo}
    (listener : s.listener = .running sharecode matchList 0) :
    run next s (List.replicate (matchList.length + 1) .listen) = some { s with
      listener := .idle
      swcpipeo := s.swcpipeo ++ (MatchListener.written (Effects.trace
        (MatchListener.matchlistListener ⟨matchList.map MatchInfo.read⟩) [])).flatten.map (·, sharecode) } := by
  have rounds : MatchListener.MatchList.HasRounds ⟨matchList.map MatchInfo.read⟩ := by
    intro info member
    obtain ⟨original, _, rfl⟩ := List.mem_map.mp member
    simpa [MatchInfo.read] using original.rounds
  rw [(MatchListener.matchlistListener_written rounds).2.2]
  have ran := listen_rest listener (Nat.zero_le _)
  rw [Nat.sub_zero, List.drop_zero] at ran
  rw [ran, MatchListener.MatchList.responses]
  by_cases empty : matchList = []
  · simp [empty]
  · simp [empty]

/-- A match with one round-stats entry. -/
def sampleMatch : MatchInfo := ⟨1568000000, [bytes "http://replay1.valve.net/730/1.dem.bz2".toList], by simp⟩
/-- One sharecode, accepted and answered with the given matches, all of them
    written before the client takes a response. -/
def sampleRun (matchList : List MatchInfo) : List Label :=
  [.request (bytes FromSharingCode.sampleCode.text), .read, .send .ok, .report, .answer 0 matchList] ++
    matchList.map (fun _ => .listen) ++ [.listen, .take]

theorem sampleRun_paired : ∃ s,
    run next (State.initial (List.replicate 256 0)) (sampleRun [sampleMatch]) = some s ∧ Paired s := by
  have runs : (run next (State.initial (List.replicate 256 0)) (sampleRun [sampleMatch])).isSome = true := by
    decide +kernel
  obtain ⟨s, ran⟩ := Option.isSome_iff_exists.mp runs
  have plain : ∀ l ∈ sampleRun [sampleMatch], Plain l := by
    decide +kernel
  exact ⟨s, ran, responses_paired _ _ plain s ran⟩

theorem surplus_response : ¬ ∀ (szMsg : List UInt8) (labels : List Label) (s : State),
    run next (State.initial szMsg) labels = some s → Paired s := by
  intro all
  have surplus : (run next (State.initial (List.replicate 256 0)) (sampleRun [sampleMatch, sampleMatch])).any
      (fun s => s.requested = s.responses.length ∧ s.swcpipeo ≠ []) = true := by
    decide +kernel
  cases ran : run next (State.initial (List.replicate 256 0)) (sampleRun [sampleMatch, sampleMatch]) with
  | none =>
    rw [ran] at surplus
    cases surplus
  | some s =>
    rw [ran] at surplus
    obtain ⟨ready, left⟩ := of_decide_eq_true surplus
    exact left ((all _ _ s ran).nothingLeft ready)

end SteamworksService.Connection
