import SteamworksService.Effects
import SteamworksService.Responses

/-!
# The `MatchList` listener

What the connection makes of a reply of the Game Coordinator. The listener takes
the last entry of a repeated field by its size minus one, unchecked; the results
say for which replies every index is in range, and what it writes for them.
-/
namespace SteamworksService.MatchListener
open Effects Responses

/-! ## The reply -/

/-- What the listener reads of `CMsgGCCStrike15_v2_MatchmakingServerRoundStats`. -/
structure RoundStats where
  map : Option (List UInt8)
/-- What it reads of `CDataGCCStrike15_v2_MatchInfo`. -/
structure MatchInfo where
  matchtime : Option UInt32
  roundstatsall : List RoundStats
/-- What it reads of `CMsgGCCStrike15_v2_MatchList`. -/
structure MatchList where
  matches_ : List MatchInfo

/-! ## The listener -/

inductive Event
  /-- An element of a repeated field is asked for. -/
  | get (index : ℤ) (size : ℕ)
  | write (response : List UInt8)
  deriving DecidableEq, Repr

/-- The read past the end of an array, behind which nothing is known of the program. -/
inductive Undefined
  | outOfRange
  deriving DecidableEq, Repr

abbrev Callback := Program Event Undefined

/-- An accessor of a repeated field, which does not check its index. -/
def get {α : Type} (field : List α) (index : ℤ) : Callback α := do
  emit (.get index field.length)
  perform (match if 0 ≤ index then field[index.toNat]? else none with
    | some x => .ok x
    | none => .error .outOfRange)

/-- The body of the loop. Unset fields read as their defaults. -/
def writeMatch (matchList : MatchList) (i : ℕ) : Callback Unit := do
  let info ← get matchList.matches_ i
  let roundStats ← get info.roundstatsall (info.roundstatsall.length - 1)
  emit (.write (demo (roundStats.map.getD []) (info.matchtime.getD 0)))

def matchlistListener (matchList : MatchList) : Callback Unit := do
  forLoop (writeMatch matchList) matchList.matches_.length 0
  if matchList.matches_.length = 0 then emit (.write sharecodeTooOld)

/-! ## What it does -/

/-- The response for a match. -/
def MatchInfo.response (info : MatchInfo) : List UInt8 :=
  demo ((info.roundstatsall.getLast?.bind RoundStats.map).getD []) (info.matchtime.getD 0)
/-- The responses for a reply. -/
def MatchList.responses (matchList : MatchList) : List (List UInt8) :=
  if matchList.matches_ = [] then [sharecodeTooOld] else matchList.matches_.map MatchInfo.response

def written (events : List Event) : List (List UInt8) :=
  events.filterMap fun
    | .write response => some response
    | .get _ _ => none
def InRange (events : List Event) : Prop :=
  ∀ (index : ℤ) (size : ℕ), .get index size ∈ events → 0 ≤ index ∧ index < size

/-- Every match comes with round stats. -/
def MatchList.HasRounds (matchList : MatchList) : Prop := ∀ info ∈ matchList.matches_, info.roundstatsall ≠ []

/-- Every index is in range, and the listener finishes with at least one response. -/
structure Safe (matchList : MatchList) : Prop where
  indices : InRange (trace (matchlistListener matchList) [])
  finishes : outcome (matchlistListener matchList) [] = .ok ()
  responds : written (trace (matchlistListener matchList) []) ≠ []

theorem InRange.push {events : List Event} (holds : InRange events) {event : Event}
    (inside : ∀ (index : ℤ) (size : ℕ), event = .get index size → 0 ≤ index ∧ index < size) : InRange (events ++ [event]) := by
  intro index size member
  rcases List.mem_append.mp member with before | last
  · exact holds index size before
  · exact inside index size (List.mem_singleton.mp last).symm

/-! ### Accesses -/

section
variable {α β : Type} {field : List α} {index : ℤ} {next : α → Callback β} {P M : List Event → Prop}
  {Q : Except Undefined β → List Event → Prop}

theorem triple_get_bind {x : α} (found : field[index.toNat]? = some x) (nonneg : 0 ≤ index)
    (passed : ∀ t, P t → M (t ++ [.get index field.length])) (second : Triple M (next x) Q) :
    Triple P (get field index >>= next) Q := by
  rw [get, bind_assoc, if_pos nonneg, found]
  exact triple_emit_bind passed second

theorem triple_get_outside (negative : index < 0)
    (thrown : ∀ t, P t → Q (.error .outOfRange) (t ++ [.get index field.length])) :
    Triple P (get field index >>= next) Q := by
  rw [get, bind_assoc, if_neg (by omega)]
  refine triple_emit_bind (M := fun t => Q (.error .outOfRange) t) thrown ?_
  exact triple_throw (fun _ holds => holds)

end

/-! ### The loop -/

section
variable {matchList : MatchList}

/-- What holds once the first `i` matches are written. -/
structure Progress (matchList : MatchList) (i : ℕ) (events : List Event) : Prop where
  inRange : InRange events
  written : written events = (matchList.matches_.take i).map MatchInfo.response
  rounds : ∀ info ∈ matchList.matches_.take i, info.roundstatsall ≠ []

/-- Some match comes without round stats. -/
def Bare (matchList : MatchList) : Prop := ∃ info ∈ matchList.matches_, info.roundstatsall = []

theorem Progress.get {i : ℕ} {events : List Event} (holds : Progress matchList i events) {index : ℤ} {size : ℕ}
    (inside : 0 ≤ index ∧ index < size) : Progress matchList i (events ++ [.get index size]) where
  inRange := holds.inRange.push (by
    rintro _ _ ⟨⟩
    exact inside)
  written := by
    rw [MatchListener.written, List.filterMap_append, ← MatchListener.written, holds.written]
    simp
  rounds := holds.rounds

theorem writeMatch_triple {i : ℕ} (inside : i < matchList.matches_.length) :
    Triple (Progress matchList i) (writeMatch matchList i)
      (ends (fun _ => Progress matchList (i + 1)) (fun _ _ => Bare matchList)) := by
  let info := matchList.matches_[i]
  have found : matchList.matches_[(i : ℤ).toNat]? = some info := List.getElem?_eq_getElem inside
  have taken : matchList.matches_.take (i + 1) = matchList.matches_.take i ++ [info] :=
    List.take_succ_eq_append_getElem inside
  unfold writeMatch
  refine triple_get_bind (M := Progress matchList i) found (by omega) (fun t holds => holds.get (by omega)) ?_
  by_cases bare : info.roundstatsall = []
  · -- The index is -1.
    refine triple_get_outside (by simp [bare]) ?_
    intro t _
    exact ⟨info, List.getElem_mem inside, bare⟩
  · have positive := List.length_pos_iff.mpr bare
    have index : ((info.roundstatsall.length : ℤ) - 1).toNat = info.roundstatsall.length - 1 := by omega
    have last : info.roundstatsall[((info.roundstatsall.length : ℤ) - 1).toNat]? =
        some (info.roundstatsall.getLast bare) := by
      rw [index, ← List.getLast?_eq_getElem?, List.getLast?_eq_some_getLast bare]
    refine triple_get_bind (M := Progress matchList i) last (by omega) (fun t holds => holds.get (by omega)) ?_
    apply triple_emit
    intro t holds
    have response : info.response =
        demo ((info.roundstatsall.getLast bare).map.getD []) (info.matchtime.getD 0) := by
      rw [MatchInfo.response, List.getLast?_eq_some_getLast bare, Option.bind_some]
    refine ⟨holds.inRange.push (by rintro _ _ ⟨⟩), ?_, ?_⟩
    · rw [taken, List.map_append, List.map_singleton, response, ← holds.written, written, List.filterMap_append]
      rfl
    · rw [taken, List.forall_mem_append, List.forall_mem_singleton]
      exact ⟨holds.rounds, bare⟩

variable (matchList) in
/-- The listener writes the responses of the reply, or comes upon a match without round stats. -/
theorem matchlistListener_triple : Triple (· = []) (matchlistListener matchList)
    (ends (fun _ t => InRange t ∧ written t = matchList.responses ∧ matchList.HasRounds)
      (fun _ _ => Bare matchList)) := by
  have loop : Triple (Progress matchList 0) (forLoop (writeMatch matchList) matchList.matches_.length 0)
      (ends (fun _ => Progress matchList (0 + matchList.matches_.length)) (fun _ _ => Bare matchList)) :=
    triple_forLoop (fun i _ below => writeMatch_triple (by omega))
  rw [Nat.zero_add] at loop
  unfold matchlistListener
  refine triple_bind (M := fun _ => Progress matchList matchList.matches_.length) (loop.strengthen ?_) ?_
  · rintro _ rfl
    exact ⟨by simp [InRange], by simp [written], by simp⟩
  intro _
  by_cases empty : matchList.matches_ = []
  · rw [if_pos (by simp [empty])]
    apply triple_emit
    intro t holds
    refine ⟨holds.inRange.push (by rintro _ _ ⟨⟩), ?_, by simp [MatchList.HasRounds, empty]⟩
    rw [written, List.filterMap_append, ← written, holds.written, MatchList.responses, if_pos empty, empty]
    rfl
  · rw [if_neg (by simpa using empty)]
    apply triple_pure
    intro t holds
    refine ⟨holds.inRange, ?_, ?_⟩
    · rw [holds.written, List.take_length, MatchList.responses, if_neg empty]
    · intro info member
      exact holds.rounds info (by rwa [List.take_length])

/-- A reply whose matches have round stats is answered in full. -/
theorem matchlistListener_written (rounds : matchList.HasRounds) :
    outcome (matchlistListener matchList) [] = .ok () ∧ InRange (trace (matchlistListener matchList) []) ∧
      written (trace (matchlistListener matchList) []) = matchList.responses := by
  have ended := matchlistListener_triple matchList [] rfl
  cases result : outcome (matchlistListener matchList) [] with
  | ok _ =>
    rw [result] at ended
    exact ⟨rfl, ended.1, ended.2.1⟩
  | error e =>
    rw [result] at ended
    obtain ⟨info, member, bare⟩ := ended
    exact absurd bare (rounds info member)

theorem responses_ne_nil : matchList.responses ≠ [] := by
  rw [MatchList.responses]
  split_ifs with empty
  · simp
  · simpa using empty

end

/-- The listener is safe on exactly the replies whose matches all have round stats. -/
theorem safe_iff (matchList : MatchList) : Safe matchList ↔ ∀ info ∈ matchList.matches_, info.roundstatsall ≠ [] := by
  constructor
  · intro safe
    have ended := matchlistListener_triple matchList [] rfl
    rw [safe.finishes] at ended
    exact ended.2.2
  · intro rounds
    obtain ⟨finishes, inRange, all⟩ := matchlistListener_written rounds
    exact ⟨inRange, finishes, by rw [all]; exact responses_ne_nil⟩

/-- A reply with one match and nothing in it, which the schema allows. -/
theorem bareMatch_unsafe : ¬ ∀ matchList : MatchList, Safe matchList := by
  intro all
  have safe := all ⟨[⟨none, []⟩]⟩
  have finishes := safe.finishes
  revert finishes
  decide

end SteamworksService.MatchListener
