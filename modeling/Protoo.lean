import Protoo.Support.Run
import Protoo.Support.Record
import Protoo.Support.SharedState
import Protoo.Support.Fate
import Protoo.Support.Monitor
import Protoo.Support.Agenda
import Protoo.Support.Regex
import Protoo.Support.Munch
import Protoo.Json
import Protoo.Message
import Protoo.Utf8
import Protoo.Texts
import Protoo.Server.Message
import Protoo.Codec
import Protoo.JsonText.Encoding
import Protoo.JsonText.Escape
import Protoo.JsonText.Strings
import Protoo.JsonText.Numbers
import Protoo.JsonText.Lexer
import Protoo.JsonText.Document
import Protoo.JsonText.Grammar
import Protoo.JsonText.Parser
import Protoo.JsonText.Serializer
import Protoo.JsonText.Library
import Protoo.Transport.Core
import Protoo.Transport.Service
import Protoo.Transport.TaskLoop
import Protoo.Transport.Reassembly
import Protoo.Transport.ReceiveBuffer
import Protoo.Transport.Writable
import Protoo.Transport.Outgoing
import Protoo.Transport.Connection
import Protoo.Transport.Retry
import Protoo.Transport.Handles
import Protoo.Transport.Url
import Protoo.Peer.Core
import Protoo.Peer.Specification
import Protoo.Peer.Completion
import Protoo.Peer.Client
import Protoo.Peer.Invariant
import Protoo.Peer.Timeout
import Protoo.Peer.Shutdown
import Protoo.Peer.Soundness
import Protoo.Peer.Ranges
import Protoo.Rpc.System
import Protoo.Rpc.Fifo
import Protoo.Rpc.Safety
import Protoo.Rpc.Identity
import Protoo.Rtm.Core
import Protoo.Rtm.Worker
import Protoo.Rtm.Bridge
import Protoo.Rtm.Publish
import Protoo.Rtm.Session
import Protoo.Rtm.Survival
import Protoo.Rtm.Callbacks
import Protoo.Rtm.Connect
import Protoo.Rtm.Listener
import Protoo.Rtm.System
import Protoo.Rtm.Flush
import Protoo.Rtm.Relogin
import Protoo.Rtm.Requests
import Protoo.Rtm.Release
import Protoo.Rtm.Outcome
import Protoo.Rtm.Strings
import Protoo.Rtm.UserId
import Protoo.Utils.TaskQueue
import Protoo.Utils.Drain
import Protoo.Utils.MessageQueue
import Protoo.Utils.Wakeup
import Protoo.Utils.Order
import Protoo.Utils.Passes
