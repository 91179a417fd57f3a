import SteamworksService.MatchListener
import SteamworksService.MessageObjects

/-!
# The messages of the Game Coordinator

The schema of the messages that the program exchanges with the Game Coordinator,
and what it reads of them. It reads the same of a message object as of the fields
from which the object was read (`matchList_object`).
-/
namespace SteamworksService.Protos
open MatchListener WireFormat MessageObjects

/-! ## The schema -/

section
variable {τ : Type}

def optional (kind : Kind) (number : ℕ) : FieldDescriptor τ := ⟨false, .scalar kind, number⟩
def repeated (kind : Kind) (number : ℕ) : FieldDescriptor τ := ⟨true, .scalar kind, number⟩
def optionalMessage (t : τ) (number : ℕ) : FieldDescriptor τ := ⟨false, .message t, number⟩
def repeatedMessage (t : τ) (number : ℕ) : FieldDescriptor τ := ⟨true, .message t, number⟩

end

inductive MessageType
  | CMsgClientHello
  | CMsgSOCacheHaveVersion
  | CMsgSOIDOwner
  | CMsgClientWelcome
  | CMsgSOCacheSubscribed
  | CMsgSOCacheSubscriptionCheck
  | CMsgClientWelcome_Location
  | CMsgSOCacheSubscribed_SubscribedType
  | CMsgGCCStrike15_v2_MatchListRequestFullGameInfo
  | CMsgGCCStrike15_v2_MatchList
  | CDataGCCStrike15_v2_MatchInfo
  | TournamentTeam
  | CDataGCCStrike15_v2_TournamentInfo
  | WatchableMatchInfo
  | CMsgGCCStrike15_v2_MatchmakingServerRoundStats
  | TournamentPlayer
  | CDataGCCStrike15_v2_TournamentSection
  | TournamentEvent
  | CMsgGCCStrike15_v2_MatchmakingGC2ServerReserve
  | CMsgGCCStrike15_v2_MatchmakingGC2ServerConfirm
  | CMsgGCCStrike15_v2_MatchmakingServerRoundStats_DropInfo
  | CDataGCCStrike15_v2_TournamentGroup
  | PlayerRankingInfo
  | IpAddressMask
  | CPreMatchInfoData
  | CDataGCCStrike15_v2_TournamentGroupTeam
  | CDataGCCStrike15_v2_TournamentGroup_Picks
  | CDataGCCStrike15_v2_TournamentMatchDraft
  | CPreMatchInfoData_TeamStats
  | CDataGCCStrike15_v2_TournamentMatchDraft_Entry
  deriving DecidableEq, Repr

def fields : MessageType → List (FieldDescriptor MessageType)
  | .CMsgClientHello =>
    [optional .uint32 1, repeatedMessage .CMsgSOCacheHaveVersion 2, optional .uint32 3, optional .uint32 4,
      optional .uint32 5, optional .uint32 6, optional .uint32 7, optional .uint32 8]
  | .CMsgSOCacheHaveVersion =>
    [optionalMessage .CMsgSOIDOwner 1, optional .fixed64 2]
  | .CMsgSOIDOwner =>
    [optional .uint32 1, optional .uint64 2]
  | .CMsgClientWelcome =>
    [optional .uint32 1, optional .string 2, repeatedMessage .CMsgSOCacheSubscribed 3,
      repeatedMessage .CMsgSOCacheSubscriptionCheck 4, optionalMessage .CMsgClientWelcome_Location 5,
      optional .string 6, optional .uint32 7, optional .uint32 8, optional .uint32 9, optional .string 10,
      optional .string 11]
  | .CMsgSOCacheSubscribed =>
    [repeatedMessage .CMsgSOCacheSubscribed_SubscribedType 2, optional .fixed64 3, optionalMessage .CMsgSOIDOwner 4]
  | .CMsgSOCacheSubscriptionCheck =>
    [optional .fixed64 2, optionalMessage .CMsgSOIDOwner 3]
  | .CMsgClientWelcome_Location =>
    [optional .float 1, optional .float 2, optional .string 3]
  | .CMsgSOCacheSubscribed_SubscribedType =>
    [optional .int32 1, repeated .string 2]
  | .CMsgGCCStrike15_v2_MatchListRequestFullGameInfo =>
    [optional .uint64 1, optional .uint64 2, optional .uint32 3]
  | .CMsgGCCStrike15_v2_MatchList =>
    [optional .uint32 1, optional .uint32 2, optional .uint32 3, repeatedMessage .CDataGCCStrike15_v2_MatchInfo 4,
      repeatedMessage .TournamentTeam 5, optionalMessage .CDataGCCStrike15_v2_TournamentInfo 6]
  | .CDataGCCStrike15_v2_MatchInfo =>
    [optional .uint64 1, optional .uint32 2, optionalMessage .WatchableMatchInfo 3,
      optionalMessage .CMsgGCCStrike15_v2_MatchmakingServerRoundStats 4,
      repeatedMessage .CMsgGCCStrike15_v2_MatchmakingServerRoundStats 5]
  | .TournamentTeam =>
    [optional .int32 1, optional .string 2, optional .string 3, optional .string 4,
      repeatedMessage .TournamentPlayer 5]
  | .CDataGCCStrike15_v2_TournamentInfo =>
    [repeatedMessage .CDataGCCStrike15_v2_TournamentSection 1, optionalMessage .TournamentEvent 2,
      repeatedMessage .TournamentTeam 3]
  | .WatchableMatchInfo =>
    [optional .uint32 1, optional .uint32 2, optional .uint32 3, optional .uint32 4, optional .string 5,
      optional .uint64 6, optional .uint64 7, optional .uint32 8, optional .string 9, optional .string 10,
      optional .uint64 11, optional .uint64 12, optional .uint64 13]
  | .CMsgGCCStrike15_v2_MatchmakingServerRoundStats =>
    [optional .uint64 1, optionalMessage .CMsgGCCStrike15_v2_MatchmakingGC2ServerReserve 2, optional .string 3,
      optional .int32 4, repeated .int32 5, repeated .int32 6, repeated .int32 7, repeated .int32 8,
      repeated .int32 9, optional .int32 10, optional .int32 11, repeated .int32 12,
      optionalMessage .CMsgGCCStrike15_v2_MatchmakingGC2ServerConfirm 13, optional .int32 14, optional .int32 15,
      repeated .int32 16, repeated .int32 17, repeated .int32 18, repeated .int32 19, repeated .int32 20,
      repeated .int32 21, optional .uint32 22, optional .uint32 23, optional .uint32 24, repeated .int32 25,
      optionalMessage .CMsgGCCStrike15_v2_MatchmakingServerRoundStats_DropInfo 26]
  | .TournamentPlayer =>
    [optional .uint32 1, optional .string 2, optional .string 3, optional .uint32 4, optional .string 5,
      optional .string 6, optional .string 7]
  | .CDataGCCStrike15_v2_TournamentSection =>
    [optional .uint32 1, optional .string 2, optional .string 3,
      repeatedMessage .CDataGCCStrike15_v2_TournamentGroup 4]
  | .TournamentEvent =>
    [optional .int32 1, optional .string 2, optional .string 3, optional .uint32 4, optional .uint32 5,
      optional .int32 6, optional .int32 7, optional .string 8, optional .uint32 9]
  | .CMsgGCCStrike15_v2_MatchmakingGC2ServerReserve =>
    [repeated .uint32 1, optional .uint32 2, optional .uint64 3, optional .uint32 4,
      repeatedMessage .PlayerRankingInfo 5, optional .uint64 6, optional .uint64 7, repeated .uint32 8,
      repeatedMessage .IpAddressMask 9, optional .uint64 10, optionalMessage .TournamentEvent 11,
      repeatedMessage .TournamentTeam 12, repeated .uint32 13, optional .uint64 14,
      optionalMessage .CPreMatchInfoData 15, optional .uint32 16, optional .uint32 17, optional .uint32 18]
  | .CMsgGCCStrike15_v2_MatchmakingGC2ServerConfirm =>
    [optional .uint32 1, optional .uint32 2, optional .uint64 3]
  | .CMsgGCCStrike15_v2_MatchmakingServerRoundStats_DropInfo =>
    [optional .uint32 1]
  | .CDataGCCStrike15_v2_TournamentGroup =>
    [optional .uint32 1, optional .string 2, optional .string 3, optional .uint32 4,
      repeatedMessage .CDataGCCStrike15_v2_TournamentGroupTeam 5, repeated .int32 6, optional .uint32 7,
      optional .uint32 8, optional .uint32 9, repeatedMessage .CDataGCCStrike15_v2_TournamentGroup_Picks 10]
  | .PlayerRankingInfo =>
    [optional .uint32 1, optional .uint32 2, optional .uint32 3, optional .float 4, optional .uint32 6]
  | .IpAddressMask =>
    [optional .uint32 1, optional .uint32 2, optional .uint32 3, optional .uint32 4, optional .uint32 5,
      optional .uint32 6]
  | .CPreMatchInfoData =>
    [optional .int32 1, optionalMessage .CDataGCCStrike15_v2_TournamentMatchDraft 4,
      repeatedMessage .CPreMatchInfoData_TeamStats 5, repeated .int32 6]
  | .CDataGCCStrike15_v2_TournamentGroupTeam =>
    [optional .int32 1, optional .int32 2, optional .bool 3]
  | .CDataGCCStrike15_v2_TournamentGroup_Picks =>
    [repeated .int32 1]
  | .CDataGCCStrike15_v2_TournamentMatchDraft =>
    [optional .int32 1, optional .int32 2, optional .int32 3, optional .int32 4, optional .int32 5,
      optional .int32 6, optional .int32 7, optional .int32 8, optional .int32 9,
      repeatedMessage .CDataGCCStrike15_v2_TournamentMatchDraft_Entry 10]
  | .CPreMatchInfoData_TeamStats =>
    [optional .int32 1, optional .string 2, repeated .string 3]
  | .CDataGCCStrike15_v2_TournamentMatchDraft_Entry =>
    [optional .int32 1, optional .int32 2]

theorem fields_numbers : ∀ t, ∀ d ∈ fields t, 1 ≤ d.number ∧ d.number < 2 ^ 29 := by
  intro t
  cases t <;> decide

def schema : Schema MessageType := ⟨fields, fields_numbers⟩

/-! ## What is read of a message -/

def asString : Scalar → Option (List UInt8)
  | .string value => some value
  | _ => none
def asUInt32 : Scalar → Option UInt32
  | .uint32 value => some value
  | _ => none
def asUInt64 : Scalar → Option UInt64
  | .uint64 value => some value
  | _ => none

def roundStats (m : Fields) : RoundStats where
  map := (scalarAt 3 m).bind asString
def matchInfo (m : Fields) : MatchInfo where
  matchtime := (scalarAt 2 m).bind asUInt32
  roundstatsall := (messagesAt 5 m).map roundStats
/-- What the listener reads of a `CMsgGCCStrike15_v2_MatchList`. -/
def matchList (m : Fields) : MatchList where
  matches_ := (messagesAt 4 m).map matchInfo

/-! ## Objects of the schema -/

theorem roundStats_object (levels : ℕ) (fs : Fields) :
    roundStats (objectTo schema (levels + 1) .CMsgGCCStrike15_v2_MatchmakingServerRoundStats fs) = roundStats fs := by
  have known : schema.field .CMsgGCCStrike15_v2_MatchmakingServerRoundStats 3 = some ⟨false, .scalar .string, 3⟩ := rfl
  rw [roundStats, roundStats, scalarAt_objectTo levels fs known]

theorem matchInfo_object (levels : ℕ) (fs : Fields) :
    matchInfo (objectTo schema (levels + 2) .CDataGCCStrike15_v2_MatchInfo fs) = matchInfo fs := by
  have stats : messagesAt 5 (objectTo schema (levels + 2) .CDataGCCStrike15_v2_MatchInfo fs) = _ :=
    messagesAt_objectTo (levels + 1) fs rfl
  rw [matchInfo, matchInfo, scalarAt_objectTo (levels + 1) fs rfl, stats, List.map_map]
  congr 1
  exact List.map_congr_left (fun stats _ => roundStats_object levels stats)

/-- The listener reads the same of the object as of the fields. -/
theorem matchList_object (fs : Fields) : matchList (object schema .CMsgGCCStrike15_v2_MatchList fs) = matchList fs := by
  have infos : messagesAt 4 (object schema .CMsgGCCStrike15_v2_MatchList fs) = _ :=
    messagesAt_objectTo recursionLimit fs rfl
  rw [matchList, matchList, infos, List.map_map]
  congr 1
  exact List.map_congr_left (fun info _ => matchInfo_object 98 info)

end SteamworksService.Protos
