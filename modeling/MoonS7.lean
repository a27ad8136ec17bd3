import MoonS7.Lib.Interaction
import MoonS7.Lib.Port
import MoonS7.Lib.Ranges
import MoonS7.Lib.Streams
import MoonS7.Lib.Segments
import MoonS7.Lib.Records
import MoonS7.Lib.Tlv
import MoonS7.Lib.Loops
import MoonS7.Lib.Double
import MoonS7.Lib.BigEndian
import MoonS7.Lib.Ieee754
import MoonS7.Lib.Utf8
import MoonS7.Protocol.Bytes
import MoonS7.Protocol.Wide
import MoonS7.Protocol.Requests
import MoonS7.Protocol.ConnectionRequest
import MoonS7.Protocol.ConnectionConfirm
import MoonS7.Protocol.Replies
import MoonS7.Protocol.Services
import MoonS7.Protocol.Strings
import MoonS7.Protocol.StringDecoding
import MoonS7.Protocol.StringEncoding
import MoonS7.Protocol.Reals
import MoonS7.Protocol.BinaryExponent
import MoonS7.Protocol.RealDecoding
import MoonS7.Protocol.RealEncoding
import MoonS7.Protocol.RealRewriting
import MoonS7.Transport.Tcp
import MoonS7.Client.Client
import MoonS7.Client.Operations
import MoonS7.Client.Values
import MoonS7.Client.SystemLists
import MoonS7.Transport.Traces
import MoonS7.Transport.Wire
import MoonS7.Transport.Segmentation
import MoonS7.Plc.Simulator
import MoonS7.Plc.ReadReplies
import MoonS7.Plc.Lossless
import MoonS7.Plc.WriteCounts
import MoonS7.Plc.MultiReplies
import MoonS7.Plc.Exchange
import MoonS7.Plc.Addresses
import MoonS7.Plc.Faults
import MoonS7.Plc.OnSocket
import MoonS7.Client.ShortReads
import MoonS7.Client.PduSize
import MoonS7.Client.ErrorReplies
import MoonS7.Client.ErrorCodes
import MoonS7.Client.ControlReplies
import MoonS7.Client.Matching
import MoonS7.Client.Setup
import MoonS7.Client.Lifecycle
import MoonS7.Transport.Cancellation
import MoonS7.Client.Framing
import MoonS7.Client.Crashes
import MoonS7.Lib.Sharing
import MoonS7.Lib.Series
import MoonS7.Lib.Registers
import MoonS7.Lib.Slices
import MoonS7.Transport.Peers
import MoonS7.Transport.Buffers
import MoonS7.Transport.Sockets
import MoonS7.Plc.Locality
import MoonS7.Client.Accesses
import MoonS7.Plc.Sessions
import MoonS7.Plc.Clients
import MoonS7.Plc.FaultySessions
import MoonS7.Plc.Requests
import MoonS7.Plc.Databases
import MoonS7.Plc.Server
import MoonS7.Plc.Receiving
import MoonS7.Plc.Simulated
import MoonS7.Client.Lifetimes
import MoonS7.Async.Schedules
