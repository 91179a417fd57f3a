import SteamworksService.Client
import SteamworksService.CutMessages
import SteamworksService.ReadLoop

/-!
# The messages of the program

A request for a match is read back as it was meant, and a `MatchList` that comes
with whole bytes is written to the client match by match. What is handed on as
fields stands for the message object that holds them (`matchList_object`).
-/
namespace SteamworksService.Messages
open Numerals Effects DotNet DecodeResponse StreamReader Responses MatchListener CodedStream WireFormat CutMessages
open MessageObjects Protos ReadLoop Client

/-! ## Requests -/

/-- The message whose fields the read loop has set. -/
def request (fgi : FullGameInfo) : Fields :=
  .scalar 1 (.uint64 fgi.matchid) (.scalar 2 (.uint64 fgi.outcomeid) (.scalar 3 (.uint32 fgi.token) .nil))

/-- The request that a message stands for; unset fields are zero. -/
def requested (m : Fields) : FullGameInfo where
  matchid := ((scalarAt 1 m).bind asUInt64).getD 0
  outcomeid := ((scalarAt 2 m).bind asUInt64).getD 0
  token := ((scalarAt 3 m).bind asUInt32).getD 0

def k_EMsgGCCStrike15_v2_MatchListRequestFullGameInfo : UInt32 := 9147

theorem request_typed (fgi : FullGameInfo) :
    (request fgi).Typed schema 0 .CMsgGCCStrike15_v2_MatchListRequestFullGameInfo :=
  ⟨⟨false, rfl⟩, ⟨false, rfl⟩, ⟨false, rfl⟩, trivial⟩

theorem requested_request (fgi : FullGameInfo) : requested (request fgi) = fgi := rfl

/-- The tags take a byte each, the numbers at most ten, ten and five. -/
theorem byteSize_request (fgi : FullGameInfo) : byteSize (request fgi) ≤ 28 := by
  have tags : ∀ number ∈ [1, 2, 3], varintSize32 (makeTag number .varint) = 1 := by decide
  have matchid : varintSize64 fgi.matchid ≤ 10 := (varintSize64_eq _).trans_le (length_varint64_le _)
  have outcomeid : varintSize64 fgi.outcomeid ≤ 10 := (varintSize64_eq _).trans_le (length_varint64_le _)
  have token : varintSize32 fgi.token ≤ 5 := (varintSize32_eq _).trans_le (length_varint32_le _)
  simp only [request, byteSize, Scalar.kind, Kind.wireType, Scalar.size, tags 1 (by simp), tags 2 (by simp),
    tags 3 (by simp)]
  omega

theorem proto_sized {m : Fields} (small : byteSize m ≤ kDefaultTotalBytesLimit) :
    (proto.byteSize m).toInt = (proto.serializeToArray m).length := by
  have short := length_small small
  rw [← byteSize_eq] at short
  show (Int32.ofNat (byteSize m)).toInt = ((serializeWithCachedSizesToArray m).length : ℤ)
  rw [Int32.toInt_ofNat_of_lt short, byteSize_eq]

/-- What `SendMessage` is given: a message of some type under its id. -/
structure Carries (sent : Sent) (id : UInt32) (t : MessageType) (m : Fields) : Prop where
  flag : sent.msgType &&& PROTO_FLAG ≠ 0
  id : msgId sent.msgType = id
  header : sent.pubData.take 8 = leBytes 4 sent.msgType.toNat ++ leBytes 4 0
  size : sent.pubData.length = sent.cubData.toNat
  parses : WireFormat.parseFromArray schema t (sent.pubData.drop 8) = (m, .ok ())

theorem sent_carries {id : UInt32} {t : MessageType} (legal : id.toNat < 2 ^ 31) (m : Message schema t) :
    Carries (sendMessageToGC proto id m.fields) id t m.fields := by
  have sized := proto_sized m.small
  have framed := pubData_eq sized id
  obtain ⟨cubData, _⟩ := cubData_eq sized
  have header : (leBytes 4 ((id ||| PROTO_FLAG).toNat : ℤ) ++ leBytes 4 0).length = 8 := by simp
  refine ⟨flag_set id, msgId_flagged legal, ?_, ?_, ?_⟩
  · rw [framed, List.take_left' header]
    rfl
  · rw [framed, List.length_append, header]
    exact (Nat.add_comm _ _).trans cubData.symm
  · rw [framed, List.drop_left' header]
    exact merge_serialize m.typed (length_small m.small) (Nat.lt_succ_self _)

/-- Every request that the read loop sends is short and stands for the numbers
    that it was built of, so requests with the same bytes ask for the same match. -/
theorem request_carried (fgi : FullGameInfo) :
    Carries (sendMessageToGC proto k_EMsgGCCStrike15_v2_MatchListRequestFullGameInfo (request fgi))
        k_EMsgGCCStrike15_v2_MatchListRequestFullGameInfo .CMsgGCCStrike15_v2_MatchListRequestFullGameInfo (request fgi) ∧
      (sendMessageToGC proto k_EMsgGCCStrike15_v2_MatchListRequestFullGameInfo (request fgi)).cubData.toNat ≤ 36 ∧
      requested (request fgi) = fgi := by
  have size := byteSize_request fgi
  have small : byteSize (request fgi) ≤ kDefaultTotalBytesLimit := size.trans (by decide)
  obtain ⟨cubData, _⟩ := cubData_eq (proto_sized small)
  refine ⟨sent_carries (by decide) ⟨request fgi, request_typed fgi, small⟩, ?_, requested_request fgi⟩
  rw [byteSize_eq] at size
  exact cubData.trans_le (Nat.add_le_add_right size 8)

/-! ## Replies -/

/-- Some bytes that come as a message under an id. -/
structure Retrieves (r : Retrieval) (id : UInt32) (data : List UInt8) : Prop where
  msgType : r.msgType = id ||| PROTO_FLAG
  msgSize : r.msgSize.toNat = data.length + 8
  recvBuffer : ∃ header, header.length = 8 ∧ r.recvBuffer = header ++ data

/-- What `OnMessageAvailable` comes to in the program for a message with these bytes. -/
def replied (r : Retrieval) : Option (List (MainListener × Fields)) :=
  (onMessageAvailable proto MainListener.pMsg (registered (fun _ => .nil) mainCalls) r).map Prod.snd

theorem replied_matchList {r : Retrieval} {data : List UInt8} (retrieves : Retrieves r k_EMsgGCCStrike15_v2_MatchList data)
    (short : data.length < 2 ^ 31) : replied r =
      some [(.matchlistListener, (WireFormat.parseFromArray schema .CMsgGCCStrike15_v2_MatchList data).1)] := by
  obtain ⟨msgType, msgSize, header, length, recvBuffer⟩ := retrieves
  have inBuffer : r.InBuffer := by
    rw [Retrieval.InBuffer, msgSize, recvBuffer, List.length_append, length]
    omega
  have payload : r.payload = data := by
    rw [Retrieval.payload, msgSize, recvBuffer, List.take_of_length_le (by rw [List.length_append]; omega),
      List.drop_left' length]
  have flag : r.msgType &&& PROTO_FLAG ≠ 0 := by
    rw [msgType]
    exact flag_set _
  have listed : (registered (fun _ : MainMessage => Fields.nil) mainCalls).m_Listeners (msgId r.msgType) = some .matchlistListener := by
    rw [msgType]
    decide
  rw [replied, onMessageAvailable_inBuffer proto MainListener.pMsg flag listed inBuffer, payload]
  rfl

theorem arriving_resized {data : List UInt8} (short : data.length < 2 ^ 31) :
    (List.replicate 8 0 ++ data).length = (UInt32.ofNat (data.length + 8)).toNat := by
  rw [List.length_append, List.length_replicate, UInt32.toNat_ofNat']
  omega

/-- A `MatchList` of these bytes behind an empty header. -/
def arriving (data : List UInt8) (short : data.length < 2 ^ 31) : Retrieval where
  m_nMessageSize := UInt32.ofNat (data.length + 8)
  result := .ok
  msgType := k_EMsgGCCStrike15_v2_MatchList ||| PROTO_FLAG
  msgSize := UInt32.ofNat (data.length + 8)
  recvBuffer := List.replicate 8 0 ++ data
  resized := arriving_resized short

theorem arriving_retrieves (data : List UInt8) (short : data.length < 2 ^ 31) :
    Retrieves (arriving data short) k_EMsgGCCStrike15_v2_MatchList data where
  msgType := rfl
  msgSize := by
    refine (arriving_resized short).symm.trans ?_
    rw [List.length_append, List.length_replicate, Nat.add_comm]
  recvBuffer := ⟨List.replicate 8 0, rfl, rfl⟩

def sampleLink : Link := ⟨"http://replay1.valve.net/730/1.dem.bz2".toList, by decide⟩
/-- A match of which the time and one round are set. -/
def sampleMatch (matchtime : UInt32) (rest : Fields) : Fields :=
  .message 4 (.scalar 2 (.uint32 matchtime) (.message 5 (.scalar 3 (.string (encodeUtf8 sampleLink.text)) .nil) .nil)) rest

theorem sampleMatch_typed (matchtime : UInt32) {rest : Fields} (typed : rest.Typed schema 0 .CMsgGCCStrike15_v2_MatchList) :
    (sampleMatch matchtime rest).Typed schema 0 .CMsgGCCStrike15_v2_MatchList :=
  ⟨⟨true, .CDataGCCStrike15_v2_MatchInfo, rfl, by decide, ⟨false, rfl⟩,
    ⟨true, .CMsgGCCStrike15_v2_MatchmakingServerRoundStats, rfl, by decide, ⟨false, rfl⟩, trivial⟩, trivial⟩, typed⟩

/-- A reply with one match. -/
def sampleReply : Message schema .CMsgGCCStrike15_v2_MatchList where
  fields := sampleMatch 1568000000 .nil
  typed := sampleMatch_typed _ trivial
  small := by decide

/-- A reply with two matches. -/
def sampleReplies : Message schema .CMsgGCCStrike15_v2_MatchList where
  fields := sampleMatch 1568000000 (sampleMatch 1568003600 .nil)
  typed := sampleMatch_typed _ (sampleMatch_typed _ trivial)
  small := by decide

theorem sampleReplies_rounds : (matchList sampleReplies.fields).HasRounds := by
  intro info member
  rcases List.mem_cons.mp member with rfl | member
  · exact List.cons_ne_nil _ _
  · cases List.mem_singleton.mp member
    exact List.cons_ne_nil _ _

theorem replied_whole (m : Message schema .CMsgGCCStrike15_v2_MatchList) {r : Retrieval}
    (retrieves : Retrieves r k_EMsgGCCStrike15_v2_MatchList (serializeWithCachedSizesToArray m.fields)) :
    replied r = some [(.matchlistListener, m.fields)] := by
  have short := length_small m.small
  rw [replied_matchList retrieves short, WireFormat.parseFromArray, merge_serialize m.typed short (Nat.lt_succ_self _)]

/-- A `MatchList` that comes whole is handed to its listener as it was meant, and
    each match of it that has round stats is written to the service. -/
theorem reply_written (m : Message schema .CMsgGCCStrike15_v2_MatchList) (rounds : (matchList m.fields).HasRounds)
    (r : Retrieval) (retrieves : Retrieves r k_EMsgGCCStrike15_v2_MatchList (serializeWithCachedSizesToArray m.fields)) :
    replied r = some [(.matchlistListener, m.fields)] ∧ outcome (matchlistListener (matchList m.fields)) [] = .ok () ∧
      written (trace (matchlistListener (matchList m.fields)) []) = (matchList m.fields).responses := by
  obtain ⟨finishes, _, all⟩ := matchlistListener_written rounds
  exact ⟨replied_whole m retrieves, finishes, all⟩

theorem sampleReplies_written :
    replied (arriving _ (length_small sampleReplies.small)) = some [(.matchlistListener, sampleReplies.fields)] ∧
      outcome (matchlistListener (matchList sampleReplies.fields)) [] = .ok () ∧
      written (trace (matchlistListener (matchList sampleReplies.fields)) []) = (matchList sampleReplies.fields).responses :=
  reply_written sampleReplies sampleReplies_rounds _ (arriving_retrieves _ _)

/-- A whole reply with one match becomes one result of the service: the link of
    the last round and the time of the match. -/
theorem reply_received (logger : Logger) (before : List DecodeResponse.Event)
    (m : Message schema .CMsgGCCStrike15_v2_MatchList) (info : MatchInfo) (only : (matchList m.fields).matches_ = [info])
    (link : Link) (last : info.roundstatsall.getLast? = some ⟨some (encodeUtf8 link.text)⟩) (r : Retrieval)
    (retrieves : Retrieves r k_EMsgGCCStrike15_v2_MatchList (serializeWithCachedSizesToArray m.fields)) :
    replied r = some [(.matchlistListener, m.fields)] ∧
      results logger before (written (trace (matchlistListener (matchList m.fields)) [])).flatten =
        [.ok ⟨utf16 link.text, unixTime (info.matchtime.getD 0)⟩] := by
  have rounds : (matchList m.fields).HasRounds := by
    intro info' member
    rw [only, List.mem_singleton] at member
    subst member
    rintro bare
    rw [bare] at last
    cases last
  obtain ⟨_, _, all⟩ := matchlistListener_written rounds
  let response := Response.demo link (info.matchtime.getD 0)
  have response_eq : (matchList m.fields).responses = [response.written] := by
    rw [MatchList.responses, if_neg (by simp [only]), only, List.map_singleton, MatchInfo.response, last]
    rfl
  refine ⟨replied_whole m retrieves, ?_⟩
  have stream : (written (trace (matchlistListener (matchList m.fields)) [])).flatten =
      [response].flatMap Response.written := by
    rw [all, response_eq]
    simp
  rw [stream, results, lines_stream [response] (by simp), List.flatMap_singleton, List.map_singleton]
  exact congrArg (fun result => [result]) (decodes_text logger before response)

theorem sampleReply_received :
    replied (arriving _ (length_small sampleReply.small)) = some [(.matchlistListener, sampleReply.fields)] ∧
      results (fun _ _ => none) [] (written (trace (matchlistListener (matchList sampleReply.fields)) [])).flatten =
        [.ok ⟨utf16 sampleLink.text, unixTime 1568000000⟩] :=
  reply_received (fun _ _ => none) [] sampleReply ⟨some 1568000000, [⟨some (encodeUtf8 sampleLink.text)⟩]⟩ rfl sampleLink rfl _
    (arriving_retrieves _ _)

/-! ## Replies that are cut off -/

/-- A repeated field of a message that is cut off has its first entries, and at
    most one more of which only a part has come. -/
theorem messagesAt_part {m cut : Fields} (part : Part m cut) (number : ℕ) : ∃ k, messagesAt number cut = (messagesAt number m).take k ∨
    ∃ full broken, (messagesAt number m)[k]? = some full ∧ Part full broken ∧
      messagesAt number cut = (messagesAt number m).take k ++ [broken] := by
  induction part with
  | here fs => exact ⟨0, .inl (by simp [messagesAt])⟩
  | string starts => exact ⟨0, .inl (by simp [messagesAt])⟩
  | touched | delimited starts | grouped part ih => exact ⟨0, .inl (by simp [messagesAt])⟩
  | scalar rest ih | unknown rest ih | group rest ih => exact ih
  | @message n value fs gs rest ih =>
    obtain ⟨k, kept⟩ := ih
    simp only [messagesAt]
    by_cases same : n = number
    · rw [if_pos same, if_pos same]
      refine ⟨k + 1, ?_⟩
      rcases kept with kept | ⟨full, broken, found, part, kept⟩
      · exact .inl (by rw [kept, List.take_succ_cons])
      · exact .inr ⟨full, broken, by simpa using found, part, by rw [kept, List.take_succ_cons, List.cons_append]⟩
    · rw [if_neg same, if_neg same]
      exact ⟨k, kept⟩
  | @inside n value fs gs part ih =>
    simp only [messagesAt]
    by_cases same : n = number
    · rw [if_pos same, if_pos same]
      exact ⟨0, .inr ⟨value, gs, by simp, part, by simp⟩⟩
    · rw [if_neg same, if_neg same]
      exact ⟨0, .inl (by simp)⟩

/-- The listener finishes on exactly the replies whose matches have round stats. -/
theorem finishes_iff (reply : MatchList) : outcome (matchlistListener reply) [] = .ok () ↔ reply.HasRounds := by
  constructor
  · intro finishes
    have ended := matchlistListener_triple reply [] rfl
    rw [finishes] at ended
    exact ended.2.2
  · intro rounds
    exact (matchlistListener_written rounds).1

/-- What the listener is handed of a reply: its first matches, and at most one
    more of which only a part has come. -/
structure Handed (m broken : Fields) (k : ℕ) (last : List MatchInfo) : Prop where
  matches_ : (matchList broken).matches_ = (matchList m).matches_.take k ++ last
  last : last = [] ∨ ∃ full part, (messagesAt 4 m)[k]? = some full ∧ Part full part ∧ last = [matchInfo part]

theorem handed_of_part {m broken : Fields} (part : Part m broken) : ∃ k last, Handed m broken k last := by
  obtain ⟨k, kept | ⟨full, broken', found, part', kept⟩⟩ := messagesAt_part part 4
  · refine ⟨k, [], ?_, .inl rfl⟩
    simp [matchList, kept, List.map_take]
  · refine ⟨k, [matchInfo broken'], ?_, .inr ⟨full, broken', found, part', rfl⟩⟩
    simp [matchList, kept, List.map_take]

/-- Wherever a `MatchList` breaks off, its listener is called, though the parser
    may have refused it. It writes the responses of the matches that have come
    whole and of at most one more, unless that one has lost all its round stats. -/
theorem cut_reply_written (m : Message schema .CMsgGCCStrike15_v2_MatchList) (rounds : (matchList m.fields).HasRounds)
    (data : List UInt8) (start : data <+: serializeWithCachedSizesToArray m.fields) (r : Retrieval)
    (retrieves : Retrieves r k_EMsgGCCStrike15_v2_MatchList data) :
    ∃ broken k last, replied r = some [(.matchlistListener, broken)] ∧ Handed m.fields broken k last ∧
      (outcome (matchlistListener (matchList broken)) [] = .ok () ↔ ∀ info ∈ last, info.roundstatsall ≠ []) ∧
      (outcome (matchlistListener (matchList broken)) [] = .ok () →
        written (trace (matchlistListener (matchList broken)) []) = (matchList broken).responses) := by
  have short := length_small m.small
  obtain ⟨left, whole⟩ := start
  have lengths := congrArg List.length whole
  rw [List.length_append] at lengths
  let broken := (WireFormat.parseFromArray schema .CMsgGCCStrike15_v2_MatchList data).1
  have part : Part m.fields broken := (merge_part m.typed short whole.symm (Nat.lt_succ_self _)).1
  obtain ⟨k, last, handed⟩ := handed_of_part part
  refine ⟨broken, k, last, replied_matchList retrieves (by omega), handed, ?_, ?_⟩
  · rw [finishes_iff, MatchList.HasRounds, handed.matches_]
    constructor
    · intro all info member
      exact all info (List.mem_append_right _ member)
    · intro all info member
      rcases List.mem_append.mp member with before | inLast
      · exact rounds info (List.mem_of_mem_take before)
      · exact all info inLast
  · intro finishes
    exact (matchlistListener_written ((finishes_iff _).mp finishes)).2.2

/-- The reply breaks off within the link of the second match, and the listener is
    handed the start of it. -/
theorem sampleReplies_cut : ∃ broken k last,
    replied (arriving ((serializeWithCachedSizesToArray sampleReplies.fields).take 80) (by decide)) =
        some [(.matchlistListener, broken)] ∧
      Handed sampleReplies.fields broken k last ∧
      (outcome (matchlistListener (matchList broken)) [] = .ok () ↔ ∀ info ∈ last, info.roundstatsall ≠ []) ∧
      (outcome (matchlistListener (matchList broken)) [] = .ok () →
        written (trace (matchlistListener (matchList broken)) []) = (matchList broken).responses) :=
  cut_reply_written sampleReplies sampleReplies_rounds _ (List.take_prefix 80 _) _ (arriving_retrieves _ _)

end SteamworksService.Messages
