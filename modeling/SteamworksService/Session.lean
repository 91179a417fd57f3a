import SteamworksService.Connection

/-!
# The session

What a client of the connection sees: it writes a sharecode, and the next thing
it sees is the one response to that sharecode. The connection with its threads
and FIFOs refines this session (`session_of_run`), and a client that waits for a
response gets it within eight steps of the connection and the coordinator
(`response_within`).
-/
namespace SteamworksService.Session
open Frames DecodeSharecode ReadLoop Responses Runs Connection

/-! ## The session -/

/-- What passes through the two FIFOs, seen from the client. -/
inductive Event
  | request (sharecode : List UInt8)
  | respond (response : List UInt8)

section
-- the replies that the Game Coordinator may give
variable (coordinator : FullGameInfo → List MatchInfo → Prop)

/-- A response to the sharecode: that the request was not accepted, or what the
    listener writes for a reply to the request that the sharecode stands for. -/
def Answers (sharecode response : List UInt8) : Prop :=
  response = unknownError ∨ ∃ matchList, coordinator (fullGameInfo sharecode) matchList ∧
    response = (MatchListener.MatchList.responses ⟨matchList.map MatchInfo.read⟩).flatten

/-- The session is between two requests, or it has a sharecode to respond to. -/
inductive Step : Option (List UInt8) → Event → Option (List UInt8) → Prop
  | request (sharecode : List UInt8) : Step none (.request sharecode) (some sharecode)
  | respond {sharecode response : List UInt8} (answers : Answers coordinator sharecode response) :
      Step (some sharecode) (.respond response) none

/-! ## The connection as a session -/

/-- What the client sees of a step. -/
def observe (s : State) : Label → Option Event
  | .request sharecode => some (.request sharecode)
  | .take => (cut 0 s.swcpipeo).map (fun first => .respond (first.1.map Prod.fst))
  | .read | .send _ | .report | .answer _ _ | .listen => none

/-- A plain step in which the coordinator, if it is one of its, replies to the request. -/
def Fair (s : State) (l : Label) : Prop :=
  Plain l ∧ ∀ i matchList, l = .answer i matchList → ∀ p, s.accepted[i]? = some p → coordinator p.2 matchList

/-- Wherever the request is, it is the one for the sharecode. -/
structure Serves (sharecode : List UInt8) (s : State) : Prop where
  noNul : 0 ∉ sharecode
  fits : sharecode.length ≤ 254
  unread : s.swcpipei ≠ [] → s.swcpipei.map Prod.fst = sharecode ++ [0]
  sending : ∀ k fgi, s.loop = .sending k fgi → fgi = fullGameInfo sharecode
  accepted : ∀ p ∈ s.accepted, p.2 = fullGameInfo sharecode
  replied : ∀ k matchList, s.listener = .running k matchList 0 → coordinator (fullGameInfo sharecode) matchList
  written : s.swcpipeo ≠ [] → ∃ k message, 0 ∉ message ∧ s.swcpipeo = frame 0 k message ∧
    Answers coordinator sharecode (message ++ [0])

/-- The connection stands where the session stands. -/
def Stands (s : State) (outstanding : Option (List UInt8)) : Prop :=
  Inv s ∧ match outstanding with
    | none => s.requested = s.responses.length
    | some sharecode => s.requested ≠ s.responses.length ∧ Serves coordinator sharecode s

end

/-! ## One place -/

/-- What is owed is in one place. -/
theorem one_place {s : State} (inv : Inv s) : ∃ requests responses, Framed 0 (·.length ≤ 254) s.swcpipei requests ∧
    Framed 0 (fun _ => True) s.swcpipeo responses ∧
    requests.length + s.loop.owes.length + s.accepted.length + s.listener.owes.length + responses.length =
      if s.requested = s.responses.length then 0 else 1 := by
  obtain ⟨requests, responses, framedI, framedO, total⟩ := inv.owed
  refine ⟨requests, responses, framedI, framedO, ?_⟩
  have lengths := congrArg List.length total
  simp only [List.length_append, List.length_map] at lengths
  rw [State.awaited] at lengths
  split_ifs at lengths ⊢ with ready
  · simp only [List.length_nil] at lengths
    omega
  · simp only [List.length_singleton] at lengths
    omega

/-- What a step can do. -/
inductive Took (s : State) : Label → State → Prop
  | request {sharecode : List UInt8} (noNul : 0 ∉ sharecode) (ready : s.requested = s.responses.length) :
      Took s (.request sharecode)
        { s with swcpipei := s.swcpipei ++ frame 0 s.requested sharecode, requested := s.requested + 1 }
  | read {b : UInt8} {k : ℕ} {more : List (UInt8 × ℕ)} (loop : s.loop = .reading)
      (arrived : s.swcpipei = (b, k) :: more) :
      Took s .read { s with
        swcpipei := s.swcpipei.drop 255
        szMsg := readInto s.szMsg ((s.swcpipei.take 255).map Prod.fst)
        loop := .sending k (fullGameInfo (readInto s.szMsg ((s.swcpipei.take 255).map Prod.fst))) }
  | send {k : ℕ} {fgi : FullGameInfo} {result : EGCResults} (loop : s.loop = .sending k fgi) :
      Took s (.send result) { s with
        loop := .sent k result
        accepted := if result = .ok then s.accepted ++ [(k, fgi)] else s.accepted }
  | report {k : ℕ} {result : EGCResults} (loop : s.loop = .sent k result) :
      Took s .report { s with loop := .reading, swcpipeo := s.swcpipeo ++ (afterSend result).map (·, k) }
  | answer {i : ℕ} {p : ℕ × FullGameInfo} {matchList : List MatchInfo} (listener : s.listener = .idle)
      (accepted : s.accepted[i]? = some p) :
      Took s (.answer i matchList)
        { s with accepted := s.accepted.eraseIdx i, listener := .running p.1 matchList 0 }
  | write {k i : ℕ} {matchList : List MatchInfo} {info : MatchInfo} (listener : s.listener = .running k matchList i)
      (found : matchList[i]? = some info) :
      Took s .listen { s with
        listener := .running k matchList (i + 1)
        swcpipeo := s.swcpipeo ++ (demo info.link info.matchtime).map (·, k) }
  | finish {k i : ℕ} {matchList : List MatchInfo} (listener : s.listener = .running k matchList i)
      (finished : matchList[i]? = none) :
      Took s .listen { s with
        listener := .idle
        swcpipeo := if matchList = [] then s.swcpipeo ++ sharecodeTooOld.map (·, k) else s.swcpipeo }
  | take {response rest : List (UInt8 × ℕ)} (first : cut 0 s.swcpipeo = some (response, rest))
      (waiting : s.responses.length < s.requested) :
      Took s .take { s with swcpipeo := rest, responses := s.responses ++ [response] }

theorem next_took {s t : State} {l : Label} (taken : next s l = some t) : Took s l t := by
  cases l with
  | request sharecode =>
    simp only [next, Option.ite_none_right_eq_some, Option.some.injEq] at taken
    obtain ⟨⟨noNul, ready⟩, rfl⟩ := taken
    exact .request noNul ready
  | read =>
    simp only [next] at taken
    split at taken
    · next loop arrived =>
      cases taken
      exact .read loop arrived
    · cases taken
  | send result =>
    simp only [next] at taken
    split at taken
    · next loop =>
      cases taken
      exact .send loop
    · cases taken
  | report =>
    simp only [next] at taken
    split at taken
    · next loop =>
      cases taken
      exact .report loop
    · cases taken
  | answer i matchList =>
    simp only [next] at taken
    split at taken
    · next listener accepted =>
      cases taken
      exact .answer listener accepted
    · cases taken
  | listen =>
    simp only [next] at taken
    split at taken
    · next listener =>
      split at taken
      · next found =>
        cases taken
        exact .write listener found
      · next finished =>
        cases taken
        exact .finish listener finished
    · cases taken
  | take =>
    simp only [next] at taken
    split at taken
    · next first =>
      split at taken
      · next waiting =>
        cases taken
        exact .take first waiting
      · cases taken
    · cases taken

section
variable {coordinator : FullGameInfo → List MatchInfo → Prop} {s t : State}

/-- A request that the client may write finds every place empty. -/
theorem stands_request (inv : Inv s) (ready : s.requested = s.responses.length) {sharecode : List UInt8}
    (noNul : 0 ∉ sharecode) (fits : sharecode.length ≤ 254) :
    Stands coordinator
      { s with swcpipei := s.swcpipei ++ frame 0 s.requested sharecode, requested := s.requested + 1 }
      (some sharecode) := by
  obtain ⟨requests, responses, framedI, framedO, once⟩ := one_place inv
  rw [if_pos ready] at once
  have unread := framedI.none (by omega)
  have written := framedO.none (by omega)
  refine ⟨inv.request noNul fits ready, by simp [ready], noNul, fits, ?_, ?_, ?_, ?_, ?_⟩
  · intro _
    simp [unread, frame_symbols]
  · intro k fgi loop
    have owes : s.loop.owes.length = 0 := by omega
    rw [show s.loop = _ from loop] at owes
    cases owes
  · intro p member
    have empty : s.accepted = [] := List.length_eq_zero_iff.mp (by omega)
    rw [show p ∈ s.accepted ↔ p ∈ [] by rw [empty]] at member
    cases member
  · intro k matchList listener
    have owes : s.listener.owes.length = 0 := by omega
    rw [show s.listener = _ from listener] at owes
    cases owes
  · intro present
    exact absurd written present

/-- What the read loop makes of a sharecode that it has read whole. -/
theorem fullGameInfo_read {sharecode : List UInt8} (noNul : 0 ∉ sharecode) (szMsg : List UInt8) :
    fullGameInfo (readInto szMsg (sharecode ++ [0])) = fullGameInfo sharecode := by
  have other : ∀ c ∈ sharecode, c ≠ 0 := fun c member zero => noNul (zero ▸ member)
  have own : cString sharecode = sharecode := by
    rw [cString, List.takeWhile_eq_self_iff]
    simpa using other
  rw [fullGameInfo, cString_readInto other, fullGameInfo, own]

variable {sharecode : List UInt8}

theorem Serves.read (serves : Serves coordinator sharecode s) (arrived : s.swcpipei ≠ []) (k : ℕ) :
    Serves coordinator sharecode { s with
      swcpipei := s.swcpipei.drop 255
      szMsg := readInto s.szMsg ((s.swcpipei.take 255).map Prod.fst)
      loop := .sending k (fullGameInfo (readInto s.szMsg ((s.swcpipei.take 255).map Prod.fst))) } := by
  have whole := serves.unread arrived
  have fits : s.swcpipei.length ≤ 255 := by
    have length := congrArg List.length whole
    simp only [List.length_map, List.length_append, List.length_singleton] at length
    have short := serves.fits
    omega
  refine { serves with unread := ?_, sending := ?_ }
  · intro left
    exact absurd (List.drop_eq_nil_of_le fits) left
  · intro j fgi loop
    cases loop
    rw [List.take_of_length_le fits, whole, fullGameInfo_read serves.noNul]

theorem Serves.send (serves : Serves coordinator sharecode s) {k : ℕ} {fgi : FullGameInfo}
    (loop : s.loop = .sending k fgi) (result : EGCResults) :
    Serves coordinator sharecode { s with
      loop := .sent k result
      accepted := if result = .ok then s.accepted ++ [(k, fgi)] else s.accepted } := by
  refine { serves with sending := ?_, accepted := ?_ }
  · intro j other sending
    cases sending
  · intro p member
    dsimp only at member
    split_ifs at member with ok
    · rcases List.mem_append.mp member with before | new
      · exact serves.accepted p before
      · rw [List.mem_singleton] at new
        subst new
        exact serves.sending k fgi loop
    · exact serves.accepted p member

theorem Serves.report (serves : Serves coordinator sharecode s) (inv : Inv s) {k : ℕ} {result : EGCResults}
    (loop : s.loop = .sent k result) :
    Serves coordinator sharecode
      { s with loop := .reading, swcpipeo := s.swcpipeo ++ (afterSend result).map (·, k) } := by
  refine { serves with sending := ?_, written := ?_ }
  · intro j fgi sending
    cases sending
  · by_cases ok : result = .ok
    · simpa [afterSend, ok] using serves.written
    · obtain ⟨_, responses, _, framedO, once⟩ := one_place inv
      rw [loop, ReadLoop.owes, if_neg ok, List.length_singleton] at once
      have empty := framedO.none (by split_ifs at once <;> omega)
      intro _
      refine ⟨k, bytes "--demo UNKNOWN_ERROR".toList, by decide, ?_, .inl rfl⟩
      rw [empty, afterSend, if_pos ok]
      rfl

theorem Serves.answer (serves : Serves coordinator sharecode s) {i : ℕ} {p : ℕ × FullGameInfo}
    (accepted : s.accepted[i]? = some p) {matchList : List MatchInfo} (replies : coordinator p.2 matchList) :
    Serves coordinator sharecode
      { s with accepted := s.accepted.eraseIdx i, listener := .running p.1 matchList 0 } := by
  refine { serves with accepted := ?_, replied := ?_ }
  · intro q member
    exact serves.accepted q (List.mem_of_mem_eraseIdx member)
  · intro k other listener
    cases listener
    rwa [← serves.accepted p (List.mem_of_getElem? accepted)]

theorem responses_single (info : MatchInfo) :
    (MatchListener.MatchList.responses ⟨[info].map MatchInfo.read⟩).flatten = demo info.link info.matchtime := by
  simp [MatchListener.MatchList.responses, MatchInfo.response_read]

theorem Serves.write (serves : Serves coordinator sharecode s) (inv : Inv s) {k i : ℕ} {matchList : List MatchInfo}
    {info : MatchInfo} (listener : s.listener = .running k matchList i) (found : matchList[i]? = some info) :
    Serves coordinator sharecode { s with
      listener := .running k matchList (i + 1)
      swcpipeo := s.swcpipeo ++ (demo info.link info.matchtime).map (·, k) } := by
  have plain := inv.plain
  rw [listener] at plain
  obtain ⟨few, _, noNul⟩ := plain
  obtain ⟨inside, same⟩ := List.getElem?_eq_some_iff.mp found
  have zero : i = 0 := by omega
  subst zero
  have single : matchList = [info] := by
    obtain ⟨only, rfl⟩ := List.length_eq_one_iff.mp (show matchList.length = 1 by omega)
    rw [← same, List.getElem_singleton]
  subst single
  obtain ⟨_, responses, _, framedO, once⟩ := one_place inv
  rw [listener, Listener.owes, if_pos rfl, List.length_singleton] at once
  have empty := framedO.none (by split_ifs at once <;> omega)
  obtain ⟨message, plain, written⟩ := demo_frame (noNul info (by simp)) info.matchtime k
  refine { serves with replied := ?_, written := ?_ }
  · intro j other running
    cases running
  · intro _
    refine ⟨k, message, plain, ?_, .inr ⟨[info], serves.replied k _ listener, ?_⟩⟩
    · rw [empty, List.nil_append, written]
    · have symbols := congrArg (List.map Prod.fst) written
      rw [frame_symbols, List.map_map] at symbols
      rw [responses_single, ← symbols]
      exact List.map_id _

theorem Serves.finish (serves : Serves coordinator sharecode s) (inv : Inv s) {k i : ℕ} {matchList : List MatchInfo}
    (listener : s.listener = .running k matchList i) :
    Serves coordinator sharecode { s with
      listener := .idle
      swcpipeo := if matchList = [] then s.swcpipeo ++ sharecodeTooOld.map (·, k) else s.swcpipeo } := by
  refine { serves with replied := ?_, written := ?_ }
  · intro j other running
    cases running
  · by_cases none : matchList = []
    · subst none
      have plain := inv.plain
      rw [listener] at plain
      have zero : i = 0 := by simpa using plain.2.1
      subst zero
      obtain ⟨_, responses, _, framedO, once⟩ := one_place inv
      rw [listener, Listener.owes, if_pos rfl, List.length_singleton] at once
      have empty := framedO.none (by split_ifs at once <;> omega)
      intro _
      refine ⟨k, bytes "--demo SHARECODE_TOO_OLD".toList, by decide, ?_, .inr ⟨[], serves.replied k _ listener, ?_⟩⟩
      · rw [if_pos rfl, empty]
        rfl
      · simp [MatchListener.MatchList.responses, sharecodeTooOld, writeString]
    · simpa [none] using serves.written

/-- What the client takes is the response to its sharecode. -/
theorem Serves.take (serves : Serves coordinator sharecode s) {response rest : List (UInt8 × ℕ)}
    (first : cut 0 s.swcpipeo = some (response, rest)) : Answers coordinator sharecode (response.map Prod.fst) := by
  have present : s.swcpipeo ≠ [] := by
    intro empty
    rw [empty] at first
    cases first
  obtain ⟨k, message, plain, whole, answers⟩ := serves.written present
  rw [whole, ← List.append_nil (frame 0 k message), cut_frame plain] at first
  cases first
  rwa [frame_symbols]

/-- A step is seen as the session allows it, and leads where the session then stands. -/
theorem stands_step (s : State) (outstanding : Option (List UInt8)) (l : Label) (t : State)
    (stands : Stands coordinator s outstanding) (fair : Fair coordinator s l) (taken : next s l = some t) :
    ∃ after, Allows (Step coordinator) outstanding (observe s l).toList after ∧ Stands coordinator t after := by
  obtain ⟨inv, stands⟩ := stands
  have kept := inv_step s l t inv fair.1 taken
  cases outstanding with
  | none =>
    cases next_took taken with
    | request noNul ready => exact ⟨_, .single (.request _), stands_request inv ready noNul fair.1⟩
    | take _ waiting => exact absurd stands (by omega)
    | read | send | report | answer | write | finish => exact ⟨none, .nil _, kept, stands⟩
  | some sharecode =>
    obtain ⟨waiting, serves⟩ := stands
    cases next_took taken with
    | request _ ready => exact absurd ready waiting
    | read _ arrived =>
      exact ⟨some sharecode, .nil _, kept, waiting, serves.read (by simp [arrived]) _⟩
    | send loop => exact ⟨some sharecode, .nil _, kept, waiting, serves.send loop _⟩
    | report loop => exact ⟨some sharecode, .nil _, kept, waiting, serves.report inv loop⟩
    | answer _ accepted =>
      exact ⟨some sharecode, .nil _, kept, waiting, serves.answer accepted (fair.2 _ _ rfl _ accepted)⟩
    | write listener found => exact ⟨some sharecode, .nil _, kept, waiting, serves.write inv listener found⟩
    | finish listener => exact ⟨some sharecode, .nil _, kept, waiting, serves.finish inv listener⟩
    | @take response _ first _ =>
      refine ⟨none, ?_, kept, ?_⟩
      · rw [observe, first]
        exact .single (.respond (serves.take first))
      · have one := inv.oneByOne
        show s.requested = (s.responses ++ [response]).length
        rw [List.length_append, List.length_singleton]
        omega

end

/-- In every run of the connection the client sees what the session allows: each
    response follows its request and answers it. -/
theorem session_of_run (coordinator : FullGameInfo → List MatchInfo → Prop) (szMsg : List UInt8) (labels : List Label)
    (fair : Along next (Fair coordinator) (State.initial szMsg) labels) (s : State)
    (ran : run next (State.initial szMsg) labels = some s) :
    ∃ outstanding, Allows (Step coordinator) none (trace next observe (State.initial szMsg) labels) outstanding ∧
      (outstanding = none ↔ s.requested = s.responses.length) := by
  have start : Stands coordinator (State.initial szMsg) none := ⟨inv_initial szMsg, rfl⟩
  obtain ⟨outstanding, seen, _, stands⟩ := trace_allowed stands_step start fair ran
  refine ⟨outstanding, seen, ?_⟩
  cases outstanding with
  | none => simpa using stands
  | some sharecode => simpa using stands.1

/-- A sharecode that is answered with one match. -/
theorem session_of_sampleRun : ∃ s, run next (State.initial (List.replicate 256 0)) (sampleRun [sampleMatch]) = some s ∧
    ∃ outstanding, Allows (Step (fun _ matchList => matchList = [sampleMatch])) none
      (trace next observe (State.initial (List.replicate 256 0)) (sampleRun [sampleMatch])) outstanding ∧
      (outstanding = none ↔ s.requested = s.responses.length) := by
  have runs : (run next (State.initial (List.replicate 256 0)) (sampleRun [sampleMatch])).isSome = true := by
    decide +kernel
  obtain ⟨s, ran⟩ := Option.isSome_iff_exists.mp runs
  have fair : ∀ l ∈ sampleRun [sampleMatch], ∀ s, Fair (fun _ matchList => matchList = [sampleMatch]) s l := by
    intro l member s
    have plain : ∀ l ∈ sampleRun [sampleMatch], Plain l := by
      decide +kernel
    refine ⟨plain l member, ?_⟩
    rintro i matchList rfl p _
    have replied : i = 0 ∧ matchList = [sampleMatch] := by simpa [sampleRun] using member
    exact replied.2
  exact ⟨s, ran, session_of_run _ _ _ (along_of_forall fair) s ran⟩

/-! ## Waiting for a response -/

/-- A step of the connection or of the Game Coordinator. -/
def Serving : Label → Prop
  | .request _ | .take => False
  | .read | .send _ | .report | .answer _ _ | .listen => True

/-- How many steps may be left before a request in this place is responded to
    and the parts of the connection are at rest. -/
def loopLeft : ReadLoop → ℕ
  | .reading => 0
  | .sending _ _ => 5
  | .sent _ _ => 1
def listenerLeft : Listener → ℕ
  | .idle => 0
  | .running _ matchList i => matchList.length - i + 1
def left (s : State) : ℕ :=
  (if s.swcpipei = [] then 0 else 6) + loopLeft s.loop + 3 * s.accepted.length + listenerLeft s.listener

section
variable {s t : State} {l : Label}

theorem serving_quiet (serving : Serving l) (taken : next s l = some t) :
    t.requested = s.requested ∧ t.responses = s.responses := by
  cases next_took taken with
  | request | take => exact serving.elim
  | read | send | report | answer | write | finish => exact ⟨rfl, rfl⟩

/-- One `read` empties the FIFO. -/
theorem read_all (inv : Inv s) : s.swcpipei.drop 255 = [] := by
  obtain ⟨requests, _, framedI, _, once⟩ := one_place inv
  have few : requests.length = 0 ∨ requests.length = 1 := by
    split_ifs at once <;> omega
  rcases few with none | one
  · rw [framedI.none none, List.drop_nil]
  · obtain ⟨k, sharecode, fits, _, whole⟩ := framedI.one one
    rw [whole, List.drop_eq_nil_iff, frame, List.length_map, List.length_append, List.length_singleton]
    omega

theorem serving_left (inv : Inv s) (serving : Serving l) (plain : Plain l) (taken : next s l = some t) :
    left t < left s := by
  cases next_took taken with
  | request | take => exact serving.elim
  | read loop arrived =>
    have present : s.swcpipei ≠ [] := by simp [arrived]
    simp [left, read_all inv, present, loop, loopLeft]
  | @send _ _ result loop =>
    by_cases ok : result = .ok
    · simp [left, loop, loopLeft, ok]
      omega
    · simp [left, loop, loopLeft, ok]
  | report loop => simp [left, loop, loopLeft]
  | @answer i _ matchList listener accepted =>
    have few : matchList.length ≤ 1 := plain.1
    obtain ⟨inside, _⟩ := List.getElem?_eq_some_iff.mp accepted
    have shorter : (s.accepted.eraseIdx i).length + 1 = s.accepted.length := by
      rw [List.length_eraseIdx_of_lt inside]
      omega
    simp [left, listener, listenerLeft]
    omega
  | write listener found =>
    obtain ⟨inside, _⟩ := List.getElem?_eq_some_iff.mp found
    simp [left, listener, listenerLeft]
    omega
  | finish listener => simp [left, listener, listenerLeft]

theorem left_le (inv : Inv s) : left s ≤ 8 := by
  obtain ⟨requests, responses, framedI, framedO, once⟩ := one_place inv
  have few : requests.length + s.loop.owes.length + s.accepted.length + s.listener.owes.length ≤ 1 := by
    split_ifs at once <;> omega
  have unread : (if s.swcpipei = [] then 0 else 6) ≤ 6 * requests.length := by
    split_ifs with empty
    · exact Nat.zero_le _
    · have present : requests.length ≠ 0 := fun none => empty (framedI.none none)
      omega
  have loop : loopLeft s.loop ≤ 4 * s.loop.owes.length + 1 := by
    cases s.loop with
    | reading => simp [loopLeft]
    | sending k fgi => simp [loopLeft, ReadLoop.owes]
    | sent k result => simp [loopLeft]
  have listener : listenerLeft s.listener ≤ s.listener.owes.length + 1 := by
    have plain := inv.plain
    cases running : s.listener with
    | idle => simp [listenerLeft]
    | running k matchList i =>
      rw [running] at plain
      obtain ⟨short, _, _⟩ := plain
      by_cases start : i = 0
      · simp [listenerLeft, Listener.owes, start, short]
      · simp [listenerLeft, Listener.owes, start]
        omega
  rw [left]
  omega

/-- While the client waits, something can be done for it. -/
theorem some_step (inv : Inv s) (waiting : s.responses.length < s.requested) :
    (∃ l t, (Serving l ∧ Plain l) ∧ next s l = some t) ∨ ∃ t, next s .take = some t := by
  obtain ⟨requests, responses, framedI, framedO, once⟩ := one_place inv
  rw [if_neg (by omega)] at once
  cases loop : s.loop with
  | sending k fgi =>
    left
    exact ⟨.send .ok, _, ⟨trivial, trivial⟩, by simp only [next, loop]; rfl⟩
  | sent k result =>
    left
    exact ⟨.report, _, ⟨trivial, trivial⟩, by simp only [next, loop]; rfl⟩
  | reading =>
    cases listener : s.listener with
    | running k matchList i =>
      left
      cases found : matchList[i]? with
      | some info => exact ⟨.listen, _, ⟨trivial, trivial⟩, by simp only [next, listener, found]; rfl⟩
      | none => exact ⟨.listen, _, ⟨trivial, trivial⟩, by simp only [next, listener, found]; rfl⟩
    | idle =>
      rw [loop, listener] at once
      simp only [ReadLoop.owes, Listener.owes, List.length_nil] at once
      cases accepted : s.accepted with
      | cons p more =>
        left
        have first : s.accepted[0]? = some p := by simp [accepted]
        exact ⟨.answer 0 [], _, ⟨trivial, by simp [Plain]⟩, by simp only [next, listener, first]; rfl⟩
      | nil =>
        rw [accepted, List.length_nil] at once
        by_cases present : responses.length = 1
        · right
          obtain ⟨k, message, _, noNul, whole⟩ := framedO.one present
          have first : cut 0 s.swcpipeo = some (frame 0 k message, []) := by
            rw [whole, ← cut_frame noNul, List.append_nil]
          exact ⟨_, by simp only [next, first, if_pos waiting]; rfl⟩
        · left
          obtain ⟨k, sharecode, _, _, whole⟩ := framedI.one (by omega)
          cases arrived : s.swcpipei with
          | nil =>
            rw [arrived] at whole
            simp [frame] at whole
          | cons b more => exact ⟨.read, _, ⟨trivial, trivial⟩, by simp only [next, loop, arrived]; rfl⟩

end

/-- A client that waits for a response gets it: from any state of any run, the
    connection and the coordinator take at most eight steps, and as long as they
    can take none the response can be taken. -/
theorem response_within (szMsg : List UInt8) (labels : List Label) (plain : ∀ l ∈ labels, Plain l) (s : State)
    (ran : run next (State.initial szMsg) labels = some s) (waiting : s.responses.length < s.requested)
    (more : List Label) (serving : ∀ l ∈ more, Serving l ∧ Plain l) (t : State) (ran' : run next s more = some t) :
    more.length ≤ 8 ∧ ((∃ l u, (Serving l ∧ Plain l) ∧ next t l = some u) ∨ ∃ u, next t .take = some u) := by
  have inv : Inv s := run_invariant (P := Inv) inv_step (inv_initial szMsg) plain ran
  have step : ∀ u l v, (Inv u ∧ u.responses.length < u.requested) → (Serving l ∧ Plain l) → next u l = some v →
      (Inv v ∧ v.responses.length < v.requested) ∧ left v < left u := by
    rintro u l v ⟨held, waits⟩ ⟨serves, plain⟩ taken
    obtain ⟨requested, responses⟩ := serving_quiet serves taken
    exact ⟨⟨inv_step u l v held plain taken, by rw [requested, responses]; exact waits⟩,
      serving_left held serves plain taken⟩
  obtain ⟨⟨held, waits⟩, bound⟩ := run_bounded step ⟨inv, waiting⟩ serving ran'
  have start := left_le inv
  exact ⟨by omega, some_step held waits⟩

/-- The sample sharecode is accepted, and the reply to it comes with one match. -/
theorem response_within_sample : ∃ s t,
    run next (State.initial (List.replicate 256 0)) (sampleRun [sampleMatch] |>.take 4) = some s ∧
      run next s [.answer 0 [sampleMatch], .listen] = some t ∧
      (2 ≤ 8 ∧ ((∃ l u, (Serving l ∧ Plain l) ∧ next t l = some u) ∨ ∃ u, next t .take = some u)) := by
  have runs : ((run next (State.initial (List.replicate 256 0)) (sampleRun [sampleMatch] |>.take 4)).any
      (fun s => s.responses.length < s.requested ∧ (run next s [.answer 0 [sampleMatch], .listen]).isSome)) = true := by
    decide +kernel
  obtain ⟨s, ran, holds⟩ := (Option.any_eq_true _ _).mp runs
  obtain ⟨waiting, rest⟩ := of_decide_eq_true holds
  obtain ⟨t, ran'⟩ := Option.isSome_iff_exists.mp rest
  have plain : ∀ l ∈ (sampleRun [sampleMatch]).take 4, Plain l := by
    decide +kernel
  have serving : ∀ l ∈ [Label.answer 0 [sampleMatch], .listen], Serving l ∧ Plain l := by
    intro l member
    have both : ∀ l ∈ [Label.answer 0 [sampleMatch], .listen], Plain l := by
      decide +kernel
    refine ⟨?_, both l member⟩
    rcases List.mem_cons.mp member with rfl | last
    · trivial
    · rw [List.mem_singleton] at last
      subst last
      trivial
  exact ⟨s, t, ran, ran', response_within _ _ plain s ran waiting _ serving t ran'⟩

end SteamworksService.Session
