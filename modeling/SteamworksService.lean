import SteamworksService.Runs
import SteamworksService.DotNet
import SteamworksService.SharingCodes
import SteamworksService.DecodeSharecode
import SteamworksService.Decoders
import SteamworksService.DistinctCodes
import SteamworksService.ReadLoop
import SteamworksService.Reads
import SteamworksService.Calls
import SteamworksService.Client
import SteamworksService.Connection
import SteamworksService.Consumer
import SteamworksService.Logging
import SteamworksService.Session
import SteamworksService.Turns
import SteamworksService.SingleCall
import SteamworksService.CodedStream
import SteamworksService.WireFormat
import SteamworksService.AnyBytes
import SteamworksService.CutMessages
import SteamworksService.MessageObjects
import SteamworksService.Protos
import SteamworksService.Messages
import SteamworksService.Startup
import SteamworksService.FifoTest
import SteamworksService.CodesOfMatch
import SteamworksService.AcceptedResponses
import SteamworksService.Configuration
