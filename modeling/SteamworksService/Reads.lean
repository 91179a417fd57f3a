import SteamworksService.ReadLoop
import SteamworksService.Responses
import Mathlib.Algebra.Group.Int.Even
import Mathlib.Data.List.ReduceOption

/-!
# Reads of the request pipe

The connection's read loop over any sequence of results of `read`. The loop
takes an error for a request and reads its buffer as a string without regard to
how many bytes have arrived; the results say for which runs it still asks for
what the client wrote, and that it rejects no text at all.
-/
namespace SteamworksService.Reads
open Numerals SharingCodes DecodeSharecode Decoders ReadLoop Responses

/-! ## The loop -/

/-- What `read(fileI, szMsg, 255)` stores when bytes have arrived. -/
structure Chunk where
  bytes : List UInt8
  nonempty : bytes ≠ []
  fits : bytes.length ≤ 255

inductive ReadResult
  | chunk (c : Chunk)
  | endOfFile
  | error

/-- The return value. -/
def ReadResult.count : ReadResult → ℤ
  | .chunk c => c.bytes.length
  | .endOfFile => 0
  | .error => -1
/-- The bytes that are stored from the start of `szMsg` on. -/
def ReadResult.stored : ReadResult → List UInt8
  | .chunk c => c.bytes
  | .endOfFile | .error => []
def ReadResult.isChunk : ReadResult → Bool
  | .chunk _ => true
  | .endOfFile | .error => false

section
variable (beyond : List UInt8)

/-- One pass of the loop: `szMsg` behind it and the request that it hands to
    `SendMessageToGC`. A string without a NUL in `szMsg` goes on in the memory `beyond`. -/
def pass (szMsg : List UInt8) (r : ReadResult) : List UInt8 × Option FullGameInfo :=
  let szMsg := readInto szMsg r.stored
  (szMsg, if r.count ≠ 0 then some (fullGameInfo (szMsg ++ beyond)) else none)
/-- What each pass sends. -/
def sent : List UInt8 → List ReadResult → List (Option FullGameInfo)
  | _, [] => []
  | szMsg, r :: rs => (pass beyond szMsg r).2 :: sent (pass beyond szMsg r).1 rs
/-- `szMsg` after the given results. -/
def bufferAfter (szMsg : List UInt8) (rs : List ReadResult) : List UInt8 :=
  rs.foldl (fun szMsg r => readInto szMsg r.stored) szMsg

/-! ## Requests from the bytes that arrived -/

/-- Every request comes from one chunk and from its bytes alone: no pass without
    a chunk sends one, and no other run that gets to the same chunk sends another. -/
structure Exact (szMsg : Vector UInt8 256) (results : List ReadResult) : Prop where
  onePerChunk : (sent beyond szMsg.toList results).map Option.isSome = results.map ReadResult.isChunk
  ownBytes : ∀ (earlier : List ReadResult) (c : Chunk) (later : List ReadResult), results = earlier ++ .chunk c :: later →
    ∀ (szMsg' : Vector UInt8 256) (earlier' : List ReadResult),
      (sent beyond szMsg'.toList (earlier' ++ .chunk c :: later))[earlier'.length]? =
        (sent beyond szMsg.toList results)[earlier.length]?

/-- No failure, and a chunk with its terminator. -/
def ReadResult.Clean : ReadResult → Prop
  | .chunk c => 0 ∈ c.bytes
  | .endOfFile => True
  | .error => False

variable {beyond}

theorem sent_at (szMsg : List UInt8) (earlier : List ReadResult) (r : ReadResult) (later : List ReadResult) :
    (sent beyond szMsg (earlier ++ r :: later))[earlier.length]? = some (pass beyond (bufferAfter szMsg earlier) r).2 := by
  induction earlier generalizing szMsg with
  | nil => rfl
  | cons first earlier ih => exact ih (readInto szMsg first.stored)

theorem pass_isSome (szMsg : List UInt8) (r : ReadResult) :
    (pass beyond szMsg r).2.isSome = true ↔ r.count ≠ 0 := by
  by_cases ended : r.count = 0
  · simp [pass, ended]
  · simp [pass, ended]

/-- A pass sends nothing exactly at the end of the file. -/
theorem count_eq_zero_iff (r : ReadResult) : r.count = 0 ↔ r = .endOfFile := by
  cases r with
  | chunk c =>
    have positive := List.length_pos_iff.mpr c.nonempty
    simp only [ReadResult.count, reduceCtorEq, iff_false]
    omega
  | endOfFile => simp [ReadResult.count]
  | error => simp [ReadResult.count]

theorem pass_isSome_of_clean (szMsg : List UInt8) {r : ReadResult} (clean : r.Clean) :
    (pass beyond szMsg r).2.isSome = r.isChunk := by
  rw [Bool.eq_iff_iff, pass_isSome, ne_eq, count_eq_zero_iff]
  cases r with
  | chunk c => simp [ReadResult.isChunk]
  | endOfFile => simp [ReadResult.isChunk]
  | error => exact clean.elim

/-- A string that ends in the chunk is the chunk's own. -/
theorem cString_of_terminated {s : List UInt8} (terminated : 0 ∈ s) (rest : List UInt8) : cString (s ++ rest) = cString s := by
  induction s with
  | nil => cases terminated
  | cons c s ih =>
    by_cases nul : c = 0
    · simp [cString, nul]
    · have inside : 0 ∈ s := (List.mem_cons.mp terminated).resolve_left (Ne.symm nul)
      rw [cString, cString, List.cons_append, List.takeWhile_cons_of_pos (by simpa using nul),
        List.takeWhile_cons_of_pos (by simpa using nul)]
      exact congrArg (c :: ·) (ih inside)

theorem fullGameInfo_congr {m n : List UInt8} (same : cString m = cString n) : fullGameInfo m = fullGameInfo n := by
  rw [fullGameInfo, fullGameInfo, same]

theorem pass_of_terminated (szMsg : List UInt8) {c : Chunk} (terminated : 0 ∈ c.bytes) :
    (pass beyond szMsg (.chunk c)).2 = some (fullGameInfo c.bytes) := by
  have positive := List.length_pos_iff.mpr c.nonempty
  have arrived : ((c.bytes.length : ℤ) ≠ 0) := by omega
  simp only [pass, ReadResult.count, ReadResult.stored, arrived, ne_eq, not_false_eq_true, if_true, readInto,
    List.append_assoc]
  rw [fullGameInfo_congr (cString_of_terminated terminated _)]

/-! ## A chunk without its terminator -/

/-- A buffer in which a chunk of this length is followed by the byte `x`. -/
def staleBuffer (c : Chunk) (x : UInt8) : Vector UInt8 256 :=
  ⟨(List.replicate c.bytes.length 0 ++ x :: List.replicate (255 - c.bytes.length) 0).toArray, by
    have := c.fits
    simp only [List.size_toArray, List.length_append, List.length_replicate, List.length_cons]
    omega⟩

theorem readInto_staleBuffer (c : Chunk) (x : UInt8) : readInto (staleBuffer c x).toList c.bytes =
    c.bytes ++ x :: List.replicate (255 - c.bytes.length) 0 := by
  simp [readInto, staleBuffer, Vector.toList]

/-- The byte behind an open chunk is read as one more symbol of the sharecode. -/
theorem value_stale (s : List UInt8) {x : UInt8} (other : x ∉ csgo) (notDash : x ≠ dash) (rest : List UInt8) :
    value 57 ((erased (s ++ x :: rest)).map find) = value 57 ((erased s).map find) +
      57 ^ (erased s).length * (find x + 57 * value 57 ((erased rest).map find)) := by
  have apart : ¬ csgo <+: x :: rest := by
    rw [show csgo = 67 :: csgo.tail by decide, List.cons_prefix_cons]
    rintro ⟨rfl, _⟩
    exact other (by decide)
  rw [erased_append s other, erased_cons notDash apart, List.map_append, value_append, List.length_map, List.map_cons]
  rfl

/-- Two such bytes, two requests. -/
theorem stale_requests {c : Chunk} (opened : 0 ∉ c.bytes) :
    (pass beyond (staleBuffer c 65).toList (.chunk c)).2 ≠ (pass beyond (staleBuffer c 66).toList (.chunk c)).2 := by
  have positive := List.length_pos_iff.mpr c.nonempty
  have arrived : ((c.bytes.length : ℤ) ≠ 0) := by omega
  let rest := cString (List.replicate (255 - c.bytes.length) 0 ++ beyond)
  have string : ∀ x : UInt8, x ≠ 0 → cString (readInto (staleBuffer c x).toList c.bytes ++ beyond) = c.bytes ++ x :: rest := by
    intro x other
    have passes : ∀ b ∈ c.bytes, decide (b ≠ 0) = true := by
      intro b member
      have notNul : b ≠ 0 := by
        rintro rfl
        exact opened member
      simpa using notNul
    rw [readInto_staleBuffer, List.append_assoc, cString, List.takeWhile_append_of_pos passes, List.cons_append,
      List.takeWhile_cons_of_pos (by simpa using other)]
    rfl
  simp only [pass, ReadResult.count, ReadResult.stored, arrived, ne_eq, not_false_eq_true, if_true, Option.some.injEq]
  intro same
  have words := congrArg FullGameInfo.words same
  rw [fullGameInfo_words, fullGameInfo_words, string 65 (by decide), string 66 (by decide), reversed, reversed,
    List.map_reverse, List.map_reverse, horner_reverse, horner_reverse, wordsOf_beBytes_iff] at words
  have first := value_stale c.bytes (x := 65) (by decide) (by decide) rest
  have second := value_stale c.bytes (x := 66) (by decide) (by decide) rest
  have zero : find 65 = 0 := by decide
  have one : find 66 = 1 := by decide
  rw [zero] at first
  rw [one] at second
  have difference : value 57 ((erased (c.bytes ++ 66 :: rest)).map find) -
      value 57 ((erased (c.bytes ++ 65 :: rest)).map find) = 57 ^ (erased c.bytes).length := by
    rw [first, second]
    ring
  have divides := words.dvd
  rw [show regexReplace (c.bytes ++ 66 :: rest) = erased (c.bytes ++ 66 :: rest) by rfl,
    show regexReplace (c.bytes ++ 65 :: rest) = erased (c.bytes ++ 65 :: rest) by rfl, difference] at divides
  have even : Even ((57 : ℤ) ^ (erased c.bytes).length) := by
    rw [even_iff_two_dvd]
    exact (by norm_num : (2 : ℤ) ∣ 256 ^ 18).trans divides
  have odd : Odd ((57 : ℤ) ^ (erased c.bytes).length) := Odd.pow (by decide)
  exact (Int.not_even_iff_odd.mpr odd) even

theorem sent_of_clean {results : List ReadResult} (clean : ∀ r ∈ results, r.Clean) (szMsg : List UInt8) :
    (sent beyond szMsg results).map Option.isSome = results.map ReadResult.isChunk := by
  induction results generalizing szMsg with
  | nil => rfl
  | cons r results ih =>
    rw [sent, List.map_cons, List.map_cons, pass_isSome_of_clean szMsg (clean r (by simp)),
      ih (fun r member => clean r (by simp [member]))]

variable (beyond)

/-- The requests of a run are those of its chunks exactly when no read of it
    fails and every chunk has a NUL in it. -/
theorem exact_iff (szMsg : Vector UInt8 256) (results : List ReadResult) :
    Exact beyond szMsg results ↔ ∀ r ∈ results, r.Clean := by
  constructor
  · intro exact' r member
    obtain ⟨earlier, later, rfl⟩ := List.append_of_mem member
    have here : (pass beyond (bufferAfter szMsg.toList earlier) r).2.isSome = r.isChunk := by
      have position := congrArg (·[earlier.length]?) exact'.onePerChunk
      simpa [List.getElem?_map, sent_at] using position
    cases r with
    | endOfFile => trivial
    | error =>
      have sends : (pass beyond (bufferAfter szMsg.toList earlier) .error).2.isSome = true :=
        (pass_isSome _ _).mpr (by decide)
      rw [here] at sends
      cases sends
    | chunk c =>
      by_contra opened
      -- Both alternative buffers would have to give the request of this run.
      have alternative : ∀ x : UInt8, (pass beyond (staleBuffer c x).toList (.chunk c)).2 =
          (pass beyond (bufferAfter szMsg.toList earlier) (.chunk c)).2 := by
        intro x
        have same := exact'.ownBytes earlier c later rfl (staleBuffer c x) []
        rw [sent_at, sent_at] at same
        exact Option.some.inj same
      exact stale_requests opened ((alternative 65).trans (alternative 66).symm)
  · intro clean
    refine ⟨sent_of_clean clean _, ?_⟩
    rintro earlier c later rfl szMsg' earlier'
    have terminated : 0 ∈ c.bytes := clean (.chunk c) (by simp)
    rw [sent_at, sent_at, pass_of_terminated _ terminated, pass_of_terminated _ terminated]

/-- A failed read is answered with a request. -/
theorem failedRead_sends : ¬ ∀ (beyond : List UInt8) (szMsg : Vector UInt8 256) (results : List ReadResult),
    Exact beyond szMsg results := by
  intro all
  have one := (all [] (Vector.replicate 256 0) [.error]).onePerChunk
  have sends : (pass [] (Vector.replicate 256 0).toList .error).2.isSome = true := (pass_isSome _ _).mpr (by decide)
  simp only [sent, List.map_cons, List.map_nil, sends] at one
  cases one

/-! ## Texts that are not sharecodes -/

/-- The requests that the loop sends for a text in these chunks. -/
def requests (szMsg : Vector UInt8 256) (chunks : List Chunk) : List FullGameInfo :=
  (sent beyond szMsg.toList (chunks.map .chunk)).reduceOption
/-- What the loop writes to the client while the requests end with these results. -/
def answers (results : ℕ → EGCResults) (requests : List FullGameInfo) : List UInt8 :=
  (List.range requests.length).flatMap (fun i => afterSend (results i))

/-- `CSGO-xxxxx-xxxxx-xxxxx-xxxxx-xxxxx`. -/
def IsSharecode (text : List UInt8) : Prop := ∃ code : SharingCode, text = bytes code.text
/-- The decoder reports failure, the coordinator is not asked, and the client
    gets one of the two documented errors. -/
structure Rejected (text : List UInt8) (requests : List FullGameInfo) (written : List UInt8) : Prop where
  failure : (decodeSharecode text).1 = false
  unsent : requests = []
  answered : written = sharecodeTooOld ∨ written = unknownError

/-- Every chunk is sent on as a request. -/
theorem requests_length (szMsg : Vector UInt8 256) (chunks : List Chunk) :
    (requests beyond szMsg chunks).length = chunks.length := by
  have all : ∀ (chunks : List Chunk) (szMsg : List UInt8),
      (sent beyond szMsg (chunks.map .chunk)).reduceOption.length = chunks.length := by
    intro chunks
    induction chunks with
    | nil => exact fun _ => rfl
    | cons c chunks ih =>
      intro szMsg
      have arrives : (ReadResult.chunk c).count ≠ 0 := by
        rw [ne_eq, count_eq_zero_iff]
        simp
      have some' : (pass beyond szMsg (.chunk c)).2.isSome = true := (pass_isSome szMsg (.chunk c)).mpr arrives
      obtain ⟨fgi, sends⟩ := Option.isSome_iff_exists.mp some'
      rw [List.map_cons, sent, sends, List.reduceOption_cons_of_some, List.length_cons, ih, List.length_cons]
  exact all chunks szMsg.toList

theorem decodeSharecode_true (code : List UInt8) : (decodeSharecode code).1 = true := rfl

/-- No text is rejected: what the client wrote is asked for, be it a sharecode or not. -/
theorem foreign_rejected_iff (szMsg : Vector UInt8 256) (text : List UInt8) (chunks : List Chunk)
    (delivered : chunks.flatMap Chunk.bytes = text ++ [0]) (results : ℕ → EGCResults) :
    (¬ IsSharecode text →
        Rejected text (requests beyond szMsg chunks) (answers results (requests beyond szMsg chunks))) ↔
      IsSharecode text := by
  constructor
  · intro rejects
    by_contra foreign
    have nothing := requests_length beyond szMsg chunks
    rw [(rejects foreign).unsent] at nothing
    rw [List.length_eq_zero_iff.mp nothing.symm] at delivered
    simp at delivered
  · intro sharecode foreign
    exact absurd sharecode foreign

theorem hello_foreign : ¬ IsSharecode (bytes "hello".toList) := by
  rintro ⟨code, same⟩
  have start : (bytes code.text).head? = some 67 := rfl
  rw [← same] at start
  revert start
  decide

/-- `hello` and its terminator. -/
def helloChunk : Chunk := ⟨bytes "hello".toList ++ [0], by decide, by decide⟩

theorem hello_rejected_iff : (¬ IsSharecode (bytes "hello".toList) →
      Rejected (bytes "hello".toList) (requests [] (Vector.replicate 256 0) [helloChunk])
        (answers (fun _ => .ok) (requests [] (Vector.replicate 256 0) [helloChunk]))) ↔
    IsSharecode (bytes "hello".toList) :=
  foreign_rejected_iff [] (Vector.replicate 256 0) (bytes "hello".toList) [helloChunk] rfl (fun _ => .ok)

theorem hello_sent : ¬ ∀ (beyond : List UInt8) (szMsg : Vector UInt8 256) (text : List UInt8) (chunks : List Chunk),
    chunks.flatMap Chunk.bytes = text ++ [0] → ∀ results : ℕ → EGCResults, ¬ IsSharecode text →
      Rejected text (requests beyond szMsg chunks) (answers results (requests beyond szMsg chunks)) := by
  intro all
  have rejected := all [] (Vector.replicate 256 0) (bytes "hello".toList) [helloChunk] rfl (fun _ => .ok) hello_foreign
  have accepted := rejected.failure
  rw [decodeSharecode_true] at accepted
  cases accepted

end

end SteamworksService.Reads
