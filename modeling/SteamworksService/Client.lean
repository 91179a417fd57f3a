import SteamworksService.Protos
import Mathlib.Data.List.Induction
import Mathlib.Logic.Function.Basic

/-!
# `Client`

Messages to and from the Game Coordinator: the header that `SendMessageToGC`
puts in front of a message, the table of listeners, and `OnMessageAvailable`,
which looks neither at the result of `RetrieveMessage` nor at that of the parser.
The results say for which retrievals it calls the right listener all the same,
and that what one side frames the other side hands to the last listener of its id.
-/
namespace SteamworksService.Client
open Numerals Effects Responses MatchListener CodedStream WireFormat Protos

/-! ## Words -/

/-- `1 << 31`. -/
def PROTO_FLAG : UInt32 := 0x80000000
/-- `2 * sizeof(uint32)`. -/
def typeSize : UInt32 := 8
/-- `msgType & (~PROTO_FLAG)`. -/
def msgId (msgType : UInt32) : UInt32 := msgType &&& ~~~PROTO_FLAG
/-- `msgSize - typeSize`, as the `int` that `ParseFromArray` takes. -/
def parseSize (msgSize : UInt32) : ℤ := (msgSize - typeSize).toInt32.toInt

theorem flag_set (id : UInt32) : (id ||| PROTO_FLAG) &&& PROTO_FLAG ≠ 0 := by
  intro cleared
  have top := congrArg (fun word : UInt32 => word.toBitVec.getLsbD 31) cleared
  simp [PROTO_FLAG] at top

theorem msgId_flagged {id : UInt32} (small : id.toNat < 2 ^ 31) : msgId (id ||| PROTO_FLAG) = id := by
  have mask : (~~~PROTO_FLAG).toNat = 2 ^ 31 - 1 := by decide
  have flag : PROTO_FLAG.toNat = 2 ^ 31 := by decide
  apply UInt32.toNat_inj.mp
  rw [msgId, UInt32.toNat_and, UInt32.toNat_or, mask, flag, Nat.and_two_pow_sub_one_eq_mod, Nat.or_mod_two_pow,
    Nat.mod_self, Nat.or_zero, Nat.mod_eq_of_lt small]

/-- The difference wraps below the header and turns negative from 2 GiB on. -/
theorem parseSize_eq (n : UInt32) : parseSize n =
    if 8 ≤ n.toNat ∧ n.toNat < 2 ^ 31 + 8 then (n.toNat : ℤ) - 8
    else if n.toNat < 8 then (n.toNat : ℤ) - 8 else (n.toNat : ℤ) - 8 - 2 ^ 32 := by
  have bound := n.toNat_lt
  have word : parseSize n = ((n - typeSize).toNat : ℤ).bmod (2 ^ 32) := by
    rw [parseSize, ← Int32.toInt_toBitVec, BitVec.toInt_eq_toNat_bmod]
    rfl
  rw [word, UInt32.toNat_sub]
  simp only [Int.bmod, typeSize, UInt32.reduceToNat]
  split_ifs <;> omega

/-! ## Sending and receiving -/

/-- What the client asks of protobuf. `ParseFromArray` clears the message object
    first, so that its result and what it leaves there depend on the bytes alone. -/
structure Protobuf (Object Message : Type) where
  byteSize : Message → Int32
  serializeToArray : Message → List UInt8
  parseFromArray : Object → List UInt8 → Bool × Message

/-- The arguments of `SendMessage`. -/
structure Sent where
  msgType : UInt32
  pubData : List UInt8
  cubData : UInt32
  deriving DecidableEq, Repr

/-- A `GCMessageAvailable_t` and what `RetrieveMessage` then returns, with the
    outputs as they are afterwards, set or not. -/
structure Retrieval where
  m_nMessageSize : UInt32
  result : EGCResults
  msgType : UInt32
  msgSize : UInt32
  recvBuffer : List UInt8
  resized : recvBuffer.length = m_nMessageSize.toNat

/-- The table of listeners and the message objects. -/
structure State (Listener Object Message : Type) where
  m_Listeners : UInt32 → Option Listener
  messages : Object → Message

/-- Stores into a buffer. -/
def store (buffer : List UInt8) (position : ℕ) (bytes : List UInt8) : List UInt8 :=
  buffer.take position ++ bytes ++ buffer.drop (position + bytes.length)

section
variable {Listener Object Message : Type} (proto : Protobuf Object Message)

def sendMessageToGC (uMsgType : UInt32) (msg : Message) : Sent :=
  let cubData := (proto.byteSize msg).toUInt32 + typeSize
  let sendBuffer := List.replicate cubData.toNat 0
  let uMsgType := uMsgType ||| PROTO_FLAG
  let sendBuffer := store sendBuffer 0 (leBytes 4 uMsgType.toNat)
  let sendBuffer := store sendBuffer 4 (leBytes 4 0)
  let sendBuffer := store sendBuffer typeSize.toNat (proto.serializeToArray msg)
  ⟨uMsgType, sendBuffer, cubData⟩

def addListener (s : State Listener Object Message) (uMsgId : UInt32) (pListener : Listener) :
    State Listener Object Message :=
  { s with m_Listeners := Function.update s.m_Listeners uMsgId (some pListener) }

/-- The table after a sequence of calls of `AddListener`. -/
def registered (messages : Object → Message) (calls : List (UInt32 × Listener)) : State Listener Object Message :=
  calls.foldl (fun s call => addListener s call.1 call.2) ⟨fun _ => none, messages⟩

variable [DecidableEq Object] (pMsg : Listener → Object)

/-- `OnMessageAvailable`: the state behind it and the listeners that it calls,
    with what their message objects hold. Nothing is known once `ParseFromArray`
    is given a range outside the buffer. -/
def onMessageAvailable (s : State Listener Object Message) (r : Retrieval) :
    Option (State Listener Object Message × List (Listener × Message)) :=
  if r.msgType &&& PROTO_FLAG ≠ 0 then
    match s.m_Listeners (msgId r.msgType) with
    | some l =>
      let size := parseSize r.msgSize
      if 0 ≤ size ∧ typeSize.toNat + size ≤ r.recvBuffer.length then
        let message := (proto.parseFromArray (pMsg l) ((r.recvBuffer.drop typeSize.toNat).take size.toNat)).2
        some ({ s with messages := Function.update s.messages (pMsg l) message }, [(l, message)])
      else none
    | none => some (s, [])
  else some (s, [])

/-! ## One retrieval -/

/-- The bytes from the header to the reported size. -/
def Retrieval.payload (r : Retrieval) : List UInt8 := (r.recvBuffer.take r.msgSize.toNat).drop 8
/-- The message is not for a listener. -/
def Unhandled (s : State Listener Object Message) (r : Retrieval) : Prop :=
  r.msgType &&& PROTO_FLAG = 0 ∨ s.m_Listeners (msgId r.msgType) = none
/-- The range that is given to the parser lies in the buffer. -/
def Retrieval.InBuffer (r : Retrieval) : Prop :=
  8 ≤ r.msgSize.toNat ∧ r.msgSize.toNat ≤ r.recvBuffer.length ∧ r.msgSize.toNat < 2 ^ 31 + 8

instance (r : Retrieval) : Decidable r.InBuffer := inferInstanceAs (Decidable (_ ∧ _))

variable {s : State Listener Object Message} {r : Retrieval} {l : Listener}

theorem inBuffer_iff : r.InBuffer ↔ 0 ≤ parseSize r.msgSize ∧ typeSize.toNat + parseSize r.msgSize ≤ r.recvBuffer.length := by
  have bound := r.msgSize.toNat_lt
  have header : typeSize.toNat = 8 := rfl
  rw [Retrieval.InBuffer, parseSize_eq, header]
  split_ifs <;> omega

theorem onMessageAvailable_unhandled (unhandled : Unhandled s r) : onMessageAvailable proto pMsg s r = some (s, []) := by
  rcases unhandled with cleared | unregistered
  · simp [onMessageAvailable, cleared]
  · simp only [onMessageAvailable, unregistered, ite_self]

section
variable (flag : r.msgType &&& PROTO_FLAG ≠ 0) (registered : s.m_Listeners (msgId r.msgType) = some l)
include flag registered

theorem onMessageAvailable_inBuffer (inBuffer : r.InBuffer) : onMessageAvailable proto pMsg s r =
    some ({ s with messages := Function.update s.messages (pMsg l) (proto.parseFromArray (pMsg l) r.payload).2 },
      [(l, (proto.parseFromArray (pMsg l) r.payload).2)]) := by
  have range : (r.recvBuffer.drop typeSize.toNat).take (parseSize r.msgSize).toNat = r.payload := by
    have header : typeSize.toNat = 8 := rfl
    have size : (parseSize r.msgSize).toNat = r.msgSize.toNat - 8 := by
      rw [parseSize_eq, if_pos ⟨inBuffer.1, inBuffer.2.2⟩]
      omega
    rw [Retrieval.payload, List.drop_take, header, size]
  simp only [onMessageAvailable, flag, registered, inBuffer_iff.mp inBuffer, range, ne_eq, not_false_eq_true, and_self,
    if_true]

theorem onMessageAvailable_outside (outside : ¬ r.InBuffer) : onMessageAvailable proto pMsg s r = none := by
  rw [inBuffer_iff] at outside
  simp only [onMessageAvailable, flag, registered, outside, ne_eq, not_false_eq_true, if_true, if_false]

end

/-! ## When a listener is called -/

variable (s r)

/-- A complete and well-formed message for a listener. -/
structure Complete (l : Listener) : Prop where
  retrieved : r.result = .ok
  flag : r.msgType &&& PROTO_FLAG ≠ 0
  long : 8 ≤ r.msgSize.toNat
  whole : r.msgSize.toNat ≤ r.recvBuffer.length
  registered : s.m_Listeners (msgId r.msgType) = some l
  parses : (proto.parseFromArray (pMsg l) r.payload).1 = true

/-- A listener is called exactly for a complete and well-formed message: the one
    of its id, with the parsed message. So the `MatchList` listener does not take
    a broken message for an empty one. -/
structure FiresExactly (matchlist : Listener) (asMatchList : Message → MatchList) : Prop where
  inside : ∃ t calls, onMessageAvailable proto pMsg s r = some (t, calls)
  fires : ∀ t calls, onMessageAvailable proto pMsg s r = some (t, calls) →
    (calls ≠ [] ↔ ∃ l, Complete proto pMsg s r l)
  own : ∀ t calls, onMessageAvailable proto pMsg s r = some (t, calls) → ∀ l message, (l, message) ∈ calls →
    s.m_Listeners (msgId r.msgType) = some l ∧ t.messages (pMsg l) = message ∧
      message = (proto.parseFromArray (pMsg l) r.payload).2
  notTooOld : ∀ t calls, onMessageAvailable proto pMsg s r = some (t, calls) → ∀ message, (matchlist, message) ∈ calls →
    .write sharecodeTooOld ∈ trace (matchlistListener (asMatchList message)) [] →
      (proto.parseFromArray (pMsg matchlist) r.payload).1 = true

/-- A listener is called as it should be exactly when the message is for none,
    or when it is complete and well formed and below 2 GiB. -/
theorem fires_iff (matchlist : Listener) (asMatchList : Message → MatchList) :
    FiresExactly proto pMsg s r matchlist asMatchList ↔
      Unhandled s r ∨ (∃ l, Complete proto pMsg s r l) ∧ r.msgSize.toNat < 2 ^ 31 + 8 := by
  constructor
  · intro exact'
    by_cases unhandled : Unhandled s r
    · exact .inl unhandled
    · simp only [Unhandled, not_or] at unhandled
      obtain ⟨flag, listed⟩ := unhandled
      obtain ⟨l, registered⟩ := Option.ne_none_iff_exists'.mp listed
      have inBuffer : r.InBuffer := by
        by_contra outside
        obtain ⟨t, calls, ended⟩ := exact'.inside
        rw [onMessageAvailable_outside proto pMsg flag registered outside] at ended
        cases ended
      have fires := exact'.fires _ _ (onMessageAvailable_inBuffer proto pMsg flag registered inBuffer)
      exact .inr ⟨fires.mp (by simp), inBuffer.2.2⟩
  · rintro (unhandled | ⟨⟨l, complete⟩, small⟩)
    · have ended : onMessageAvailable proto pMsg s r = some (s, []) :=
        onMessageAvailable_unhandled proto pMsg unhandled
      have incomplete : ¬ ∃ l, Complete proto pMsg s r l := by
        rintro ⟨l, complete⟩
        rcases unhandled with cleared | unregistered
        · exact complete.flag cleared
        · rw [complete.registered] at unregistered
          cases unregistered
      refine ⟨⟨s, [], ended⟩, ?_, ?_, ?_⟩
      · intro t calls same
        cases ended.symm.trans same
        simp [incomplete]
      · intro t calls same
        cases ended.symm.trans same
        simp
      · intro t calls same
        cases ended.symm.trans same
        simp
    · have ended := onMessageAvailable_inBuffer proto pMsg complete.flag complete.registered
        ⟨complete.long, complete.whole, small⟩
      refine ⟨⟨_, _, ended⟩, ?_, ?_, ?_⟩
      · intro t calls same
        cases ended.symm.trans same
        simp only [ne_eq, List.cons_ne_self, not_false_eq_true, true_iff]
        exact ⟨l, complete⟩
      · intro t calls same l' message member
        cases ended.symm.trans same
        cases List.mem_singleton.mp member
        exact ⟨complete.registered, Function.update_self .., rfl⟩
      · intro t calls same message member _
        cases ended.symm.trans same
        cases List.mem_singleton.mp member
        exact complete.parses

end

/-! ## The two listeners of the program -/

inductive MainListener
  | welcomeListener
  | matchlistListener
  deriving DecidableEq, Repr
inductive MainMessage
  | welcomeRequest
  | matchList
  deriving DecidableEq, Repr
def MainListener.pMsg : MainListener → MainMessage
  | .welcomeListener => .welcomeRequest
  | .matchlistListener => .matchList

def k_EMsgGCClientWelcome : UInt32 := 4004
def k_EMsgGCCStrike15_v2_MatchList : UInt32 := 9139

def messageType : MainMessage → MessageType
  | .welcomeRequest => .CMsgClientWelcome
  | .matchList => .CMsgGCCStrike15_v2_MatchList

def accepts : Except Failure Unit → Bool
  | .ok _ => true
  | .error _ => false

/-- Protobuf for the messages of the program. -/
def proto : Protobuf MainMessage Fields where
  byteSize m := Int32.ofNat (byteSize m)
  serializeToArray := serializeWithCachedSizesToArray
  parseFromArray object data :=
    let parsed := WireFormat.parseFromArray schema (messageType object) data
    (accepts parsed.2, parsed.1)

/-- The calls of `AddListener` in `main`. -/
def mainCalls : List (UInt32 × MainListener) :=
  [(k_EMsgGCClientWelcome, .welcomeListener), (k_EMsgGCCStrike15_v2_MatchList, .matchlistListener)]
/-- A `MatchList` that ends behind the tag of its first field. -/
def truncatedMatchList : Retrieval where
  m_nMessageSize := 9
  result := .ok
  msgType := k_EMsgGCCStrike15_v2_MatchList ||| PROTO_FLAG
  msgSize := 9
  recvBuffer := List.replicate 8 0 ++ [0x08]
  resized := rfl

/-- The truncated `MatchList` is reported as an empty one. -/
theorem truncatedMatchList_tooOld : ¬ FiresExactly proto MainListener.pMsg (registered (fun _ => .nil) mainCalls)
    truncatedMatchList .matchlistListener matchList := by
  intro exact'
  have flag : truncatedMatchList.msgType &&& PROTO_FLAG ≠ 0 := by decide
  have listed : (registered (fun _ : MainMessage => Fields.nil) mainCalls).m_Listeners
      (msgId truncatedMatchList.msgType) = some .matchlistListener := by decide
  have ended := onMessageAvailable_inBuffer proto MainListener.pMsg flag listed (by decide)
  have left : proto.parseFromArray MainListener.matchlistListener.pMsg truncatedMatchList.payload = (false, .nil) := by
    decide
  rw [left] at ended
  have parsed := exact'.notTooOld _ _ ended .nil (by decide) (by decide)
  rw [left] at parsed
  cases parsed

/-! ## Sending to oneself -/

section
variable {Listener Object Message : Type} (proto : Protobuf Object Message) (pMsg : Listener → Object)

/-- The listener of the last call for an id. -/
def lastRegistered (calls : List (UInt32 × Listener)) (id : UInt32) : Option Listener :=
  (calls.reverse.find? (·.1 = id)).map Prod.snd

/-- What was handed to the coordinator comes back as it is. -/
structure DeliveredBack (sent : Sent) (r : Retrieval) : Prop where
  retrieved : r.result = .ok
  msgType : r.msgType = sent.msgType
  msgSize : r.msgSize = sent.cubData
  recvBuffer : r.recvBuffer = sent.pubData

theorem registered_listeners (messages : Object → Message) (calls : List (UInt32 × Listener)) (id : UInt32) :
    (registered messages calls).m_Listeners id = lastRegistered calls id := by
  induction calls using List.reverseRecOn with
  | nil => rfl
  | append_singleton calls call ih =>
    rw [registered, List.foldl_append, ← registered]
    simp only [List.foldl_cons, List.foldl_nil, addListener, lastRegistered, List.reverse_append, List.reverse_singleton,
      List.singleton_append, List.find?_cons]
    by_cases same : call.1 = id
    · simp [same]
    · rw [Function.update_of_ne (Ne.symm same), ih]
      simp [lastRegistered, same]

section
variable {proto} {m : Message}

/-- `ByteSize` is an `int`, so the header still fits the word that counts the bytes. -/
theorem cubData_eq (sized : (proto.byteSize m).toInt = (proto.serializeToArray m).length) :
    ((proto.byteSize m).toUInt32 + typeSize).toNat = (proto.serializeToArray m).length + 8 ∧
      (proto.serializeToArray m).length < 2 ^ 31 := by
  have word : (proto.byteSize m).toInt = ((proto.byteSize m).toUInt32.toNat : ℤ).bmod (2 ^ 32) := by
    rw [← Int32.toInt_toBitVec, BitVec.toInt_eq_toNat_bmod]
    rfl
  have bound := (proto.byteSize m).toUInt32.toNat_lt
  rw [UInt32.toNat_add]
  simp only [Int.bmod, typeSize, UInt32.reduceToNat] at word ⊢
  split_ifs at word <;> omega

theorem store_behind (written bytes : List UInt8) (n : ℕ) :
    store (written ++ List.replicate (bytes.length + n) 0) written.length bytes =
      written ++ bytes ++ List.replicate n 0 := by
  rw [store, List.take_left, List.drop_append, List.drop_replicate]
  simp

/-- The message is framed by the two words of the header. -/
theorem pubData_eq (sized : (proto.byteSize m).toInt = (proto.serializeToArray m).length) (id : UInt32) :
    (sendMessageToGC proto id m).pubData =
      leBytes 4 (id ||| PROTO_FLAG).toNat ++ leBytes 4 0 ++ proto.serializeToArray m := by
  obtain ⟨size, _⟩ := cubData_eq sized
  have header : typeSize.toNat = 8 := rfl
  have first := store_behind [] (leBytes 4 (id ||| PROTO_FLAG).toNat) (4 + (proto.serializeToArray m).length)
  have second := store_behind (leBytes 4 (id ||| PROTO_FLAG).toNat) (leBytes 4 0) (proto.serializeToArray m).length
  have third := store_behind (leBytes 4 (id ||| PROTO_FLAG).toNat ++ leBytes 4 0) (proto.serializeToArray m) 0
  simp only [leBytes_length, List.length_append, List.nil_append, List.length_nil, Nat.add_zero, List.replicate_zero,
    List.append_nil] at first second third
  have room : (proto.serializeToArray m).length + 8 = 4 + (4 + (proto.serializeToArray m).length) := by omega
  simp only [sendMessageToGC, size, header, room, first, second, third]

theorem onMessageAvailable_deliveredBack {id : UInt32} (small : id.toNat < 2 ^ 31)
    (sized : (proto.byteSize m).toInt = (proto.serializeToArray m).length) {r : Retrieval}
    (delivered : DeliveredBack (sendMessageToGC proto id m) r) :
    r.msgType &&& PROTO_FLAG ≠ 0 ∧ msgId r.msgType = id ∧ r.InBuffer ∧ r.payload = proto.serializeToArray m := by
  obtain ⟨size, below⟩ := cubData_eq sized
  have header : (leBytes 4 ((id ||| PROTO_FLAG).toNat : ℤ) ++ leBytes 4 0).length = 8 := by simp
  have length : r.recvBuffer.length = (proto.serializeToArray m).length + 8 := by
    rw [delivered.recvBuffer, pubData_eq sized, List.length_append, header]
    omega
  have msgSize : r.msgSize.toNat = (proto.serializeToArray m).length + 8 := by
    rw [delivered.msgSize]
    exact size
  refine ⟨?_, ?_, ⟨by omega, by omega, by omega⟩, ?_⟩
  · rw [delivered.msgType]
    exact flag_set id
  · rw [delivered.msgType]
    exact msgId_flagged small
  · rw [Retrieval.payload, List.take_of_length_le (by omega), delivered.recvBuffer, pubData_eq sized,
      List.drop_left' header]

end

variable [DecidableEq Object]

/-- The last listener of the id is called once with the message, and nothing
    else changes; without a listener nothing happens. -/
structure Dispatched (calls : List (UInt32 × Listener)) (id : UInt32) (m : Message) (s t : State Listener Object Message)
    (called : List (Listener × Message)) : Prop where
  once : called = (lastRegistered calls id).toList.map (·, m)
  received : ∀ l, lastRegistered calls id = some l → t.messages (pMsg l) = m
  others : ∀ object, (∀ l, lastRegistered calls id = some l → object ≠ pMsg l) → t.messages object = s.messages object
  table : t.m_Listeners = s.m_Listeners

/-- A message that is sent and comes back reaches the last listener of its id. -/
theorem sent_dispatched (messages : Object → Message) (calls : List (UInt32 × Listener)) (id : UInt32)
    (small : id.toNat < 2 ^ 31) (m : Message) (sized : (proto.byteSize m).toInt = (proto.serializeToArray m).length)
    (parses : ∀ l, lastRegistered calls id = some l →
      proto.parseFromArray (pMsg l) (proto.serializeToArray m) = (true, m))
    (r : Retrieval) (delivered : DeliveredBack (sendMessageToGC proto id m) r) :
    ∃ t called, onMessageAvailable proto pMsg (registered messages calls) r = some (t, called) ∧
      Dispatched pMsg calls id m (registered messages calls) t called := by
  obtain ⟨flag, same, inBuffer, payload⟩ := onMessageAvailable_deliveredBack small sized delivered
  have listed := registered_listeners messages calls id
  rw [← same] at listed
  cases last : lastRegistered calls id with
  | none =>
    rw [same, last] at listed
    refine ⟨_, [], onMessageAvailable_unhandled proto pMsg (.inr (by rw [same, listed])), ?_⟩
    exact ⟨by simp [last], by simp [last], fun _ _ => rfl, rfl⟩
  | some l =>
    rw [same, last, ← same] at listed
    refine ⟨_, _, onMessageAvailable_inBuffer proto pMsg flag listed inBuffer, ?_⟩
    rw [payload, parses l last]
    refine ⟨by simp [last], ?_, ?_, rfl⟩
    · intro l' found
      cases last.symm.trans found
      exact Function.update_self ..
    · intro object other
      exact Function.update_of_ne (other l last) ..

end

/-- A `MatchList` of which only the first field is set. -/
def sentMatchList : Fields := .scalar 1 (.uint32 1) .nil
/-- It was sent under its own id. -/
def returnedMatchList : Retrieval where
  m_nMessageSize := 10
  result := .ok
  msgType := (sendMessageToGC proto k_EMsgGCCStrike15_v2_MatchList sentMatchList).msgType
  msgSize := (sendMessageToGC proto k_EMsgGCCStrike15_v2_MatchList sentMatchList).cubData
  recvBuffer := (sendMessageToGC proto k_EMsgGCCStrike15_v2_MatchList sentMatchList).pubData
  resized := by decide

theorem sentMatchList_parses : ∀ l, lastRegistered mainCalls k_EMsgGCCStrike15_v2_MatchList = some l →
    proto.parseFromArray l.pMsg (proto.serializeToArray sentMatchList) = (true, sentMatchList) := by
  rintro l last
  have own : lastRegistered mainCalls k_EMsgGCCStrike15_v2_MatchList = some .matchlistListener := by decide
  cases own.symm.trans last
  decide

theorem returnedMatchList_dispatched : ∃ t called,
    onMessageAvailable proto MainListener.pMsg (registered (fun _ => .nil) mainCalls) returnedMatchList =
        some (t, called) ∧
      Dispatched MainListener.pMsg mainCalls k_EMsgGCCStrike15_v2_MatchList sentMatchList
        (registered (fun _ => .nil) mainCalls) t called :=
  sent_dispatched proto MainListener.pMsg (fun _ => .nil) mainCalls k_EMsgGCCStrike15_v2_MatchList (by decide)
    sentMatchList (by decide) sentMatchList_parses returnedMatchList ⟨rfl, rfl, rfl, rfl⟩

end SteamworksService.Client
