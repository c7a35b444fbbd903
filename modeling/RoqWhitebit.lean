import RoqWhitebit.General.Runs
import RoqWhitebit.General.Processes
import RoqWhitebit.General.HighWater
import RoqWhitebit.General.Network
import RoqWhitebit.General.Emplace
import RoqWhitebit.General.Slices
import RoqWhitebit.General.Throwing
import RoqWhitebit.General.Contracts
import RoqWhitebit.General.Truncation
import RoqWhitebit.General.Blocks
import RoqWhitebit.General.JsonText
import RoqWhitebit.General.JsonReader
import RoqWhitebit.Exceptions
import RoqWhitebit.Utils
import RoqWhitebit.Tools.Throttle
import RoqWhitebit.Tools.ThrottleCounts
import RoqWhitebit.Tools.Quota
import RoqWhitebit.Tools.ThrottleRuns
import RoqWhitebit.Tools.ThrottleHeaders
import RoqWhitebit.Tools.ThrottleRange
import RoqWhitebit.Tools.ThrottleCauses
import RoqWhitebit.Tools.Crypto
import RoqWhitebit.Protocol.Json.Value
import RoqWhitebit.Protocol.Json.Timestamps
import RoqWhitebit.Protocol.Json.Parser
import RoqWhitebit.Protocol.Json.Updates
import RoqWhitebit.Gateway.Symbols
import RoqWhitebit.Gateway.ReferenceData
import RoqWhitebit.Gateway.MarketData
import RoqWhitebit.Gateway.Requests
import RoqWhitebit.Gateway.Controller
import RoqWhitebit.Gateway.Rest
import RoqWhitebit.Gateway.Instruments
import RoqWhitebit.Gateway.Distribution
import RoqWhitebit.Gateway.Identifiers
import RoqWhitebit.Gateway.Coverage
import RoqWhitebit.Gateway.Recovery
import RoqWhitebit.Gateway.CutShort
import RoqWhitebit.Gateway.Failures
import RoqWhitebit.Gateway.Announced
import RoqWhitebit.Gateway.Growth
import RoqWhitebit.Gateway.Exchange
import RoqWhitebit.Gateway.Timers
import RoqWhitebit.Gateway.Delivery
import RoqWhitebit.Gateway.Download
import RoqWhitebit.Gateway.OneEffect
import RoqWhitebit.Gateway.Feed
import RoqWhitebit.Gateway.Books
import RoqWhitebit.Gateway.Frames
import RoqWhitebit.Gateway.Wire
import RoqWhitebit.Gateway.Accounts
import RoqWhitebit.Gateway.Statistics
