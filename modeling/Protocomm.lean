import Protocomm.Misc.Machine
import Protocomm.Misc.Pool
import Protocomm.Misc.Alone
import Protocomm.Misc.Recorder
import Protocomm.Misc.PrefixCode
import Protocomm.Misc.LinkChain
import Protocomm.Misc.MapValues
import Protocomm.Misc.Weight
import Protocomm.Misc.IdTable
import Protocomm.Misc.Slots
import Protocomm.Misc.Outlet
import Protocomm.Misc.Gate
import Protocomm.Status
import Protocomm.Frame
import Protocomm.FrameProps
import Protocomm.FrameReaders
import Protocomm.FrameStream
import Protocomm.ReaderReport
import Protocomm.Cpp.MpscQueue.Model
import Protocomm.Cpp.MpscQueue.Invariant
import Protocomm.Cpp.MpscQueue.Fifo
import Protocomm.Go.Channel.Model
import Protocomm.Go.Channel.Moves
import Protocomm.Go.Channel.Registry
import Protocomm.Go.Channel.Completion
import Protocomm.Go.Channel.Generations
import Protocomm.Go.Channel.Isolation
import Protocomm.Go.Channel.Lines
import Protocomm.Go.Channel.Requests
import Protocomm.Go.Channel.ReadLoop
import Protocomm.Cpp.Channel.Model
import Protocomm.Cpp.Channel.Moves
import Protocomm.Cpp.Channel.Lifecycle
import Protocomm.Cpp.Channel.Reader
import Protocomm.Cpp.Channel.Registry
import Protocomm.Cpp.Channel.Shutdown
import Protocomm.Cpp.Channel.Completion
import Protocomm.Cpp.Channel.Dispatch
import Protocomm.Cpp.Channel.Owner
import Protocomm.Cpp.Channel.ReadLoop
import Protocomm.CallIds
import Protocomm.ClientReaders
import Protocomm.Go.Server.Model
import Protocomm.Go.Server.Moves
import Protocomm.Go.Server.Peers
import Protocomm.Go.Server.Output
import Protocomm.Go.Server.Sessions
import Protocomm.Go.Server.Lifecycle
import Protocomm.Go.Server.Gate
import Protocomm.Go.Server.Limit
import Protocomm.Go.Server.Requests
import Protocomm.Go.Server.Answers
import Protocomm.Go.Net.Model
import Protocomm.Go.Net.Streams
import Protocomm.Go.Net.Handshake
import Protocomm.Cpp.Server.Model
import Protocomm.Cpp.Server.Moves
import Protocomm.Cpp.Server.Sessions
import Protocomm.Cpp.Server.Output
import Protocomm.Cpp.Server.Gate
import Protocomm.Cpp.Server.Registry
import Protocomm.SentFrames
import Protocomm.ServerOutput
import Protocomm.ServerGate
import Protocomm.Go.Channel.Connections
import Protocomm.Go.Channel.Writers
import Protocomm.Misc.Pumped
import Protocomm.WritePumps
import Protocomm.Cpp.Channel.WriteQueue
import Protocomm.Cpp.Channel.Socket
import Protocomm.Cpp.Channel.Connect
import Protocomm.Go.Net.Calls
import Protocomm.MethodHash
import Protocomm.Misc.KeyClaims
import Protocomm.Plugins.Model
import Protocomm.Plugins.Scan
import Protocomm.Plugins.Output
import Protocomm.Go.Testpb.Wire
import Protocomm.Misc.Loop
import Protocomm.Go.Testpb.Messages
import Protocomm.Go.Testpb.Total
import Protocomm.Go.Testpb.Codec
import Protocomm.Go.Testpb.RoundTrip
import Protocomm.Misc.Restrict
import Protocomm.RequestStream
import Protocomm.Go.Server.Plain
import Protocomm.Go.Server.Drain
import Protocomm.Go.Server.Written
import Protocomm.Misc.Rest
import Protocomm.Go.Server.Shutdown
import Protocomm.Go.Channel.Rest
import Protocomm.Cpp.Server.Order
import Protocomm.Cpp.Server.Line
import Protocomm.Cpp.Server.Plain
import Protocomm.Cpp.Server.Drain
import Protocomm.Cpp.Server.Written
import Protocomm.ServerAnswers
import Protocomm.Misc.Before
import Protocomm.Cpp.Channel.Link
import Protocomm.Cpp.Channel.Replies
import Protocomm.Cpp.Channel.Requests
import Protocomm.Cpp.Server.Wire
import Protocomm.Cpp.Server.Results
import Protocomm.Cpp.Net.Model
import Protocomm.Cpp.Net.Order
import Protocomm.Cpp.Net.Calls
import Protocomm.Cpp.Net.Pushes
import Protocomm.Generated.Model
import Protocomm.Generated.Calls
import Protocomm.Generated.Net
import Protocomm.Cpp.Channel.Work
import Protocomm.Cpp.Server.Work
import Protocomm.Cpp.Net.Alone
import Protocomm.Cpp.Channel.Rest
import Protocomm.Cpp.Server.Rest
import Protocomm.Cpp.Net.Rest
import Protocomm.Cpp.Net.Handshake
import Protocomm.Cpp.Net.Broadcast
import Protocomm.Interop
import Protocomm.Misc.Duty
import Protocomm.Go.Server.Duties
import Protocomm.Go.Channel.Duties
import Protocomm.Go.Net.Alone
import Protocomm.Go.Net.Rest
