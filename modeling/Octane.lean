import Octane.Lib.Search
import Octane.Lib.UnorderedMap
import Octane.Lib.HashTable
import Octane.Lib.Memory
import Octane.Lib.Decimal
import Octane.Lib.Transition
import Octane.Lib.Patterns
import Octane.Lib.Runs
import Octane.Lib.Percent
import Octane.Lib.Ledger
import Octane.Utils.FileHandle
import Octane.Utils.Ownership
import Octane.StringView
import Octane.HttpTypes
import Octane.HttpTypes.Hash
import Octane.HttpLimits
import Octane.HttpRequest
import Octane.HttpParser
import Octane.HttpParser.RequestLine
import Octane.HttpParser.Fields
import Octane.HttpParser.HeaderTable
import Octane.HttpParser.Pairs
import Octane.HttpParser.RequestHead
import Octane.HttpParser.Soundness
import Octane.HttpParser.Framing
import Octane.HttpResponse
import Octane.HttpResponse.Head
import Octane.HttpResponse.Setters
import Octane.HttpResponse.Injection
import Octane.HttpResponse.UniqueNames
import Octane.HttpResponse.Reader
import Octane.HttpResponse.Whole
import Octane.Trie
import Octane.Trie.Segments
import Octane.Trie.Children
import Octane.Trie.Linked
import Octane.Trie.Descent
import Octane.Trie.Paths
import Octane.Router
import Octane.Router.Resolution
import Octane.Router.Completeness
import Octane.Router.Params
import Octane.HttpParser.Safety
import Octane.HttpParser.Success
import Octane.HttpParser.KeepAlive
import Octane.HttpParser.Acceptance
import Octane.HttpParser.Refusal
import Octane.HttpParser.Respelling
import Octane.HttpParser.Encoding
import Octane.HttpParser.Query
import Octane.HttpParser.Bounds
import Octane.Core.RequestDispatcher
import Octane.Core.Recovery
import Octane.Transport.TcpConnection
import Octane.Transport.Buffer
import Octane.Transport.Outcome
import Octane.Transport.Response
import Octane.Transport.Containment
import Octane.Transport.Steps
import Octane.Transport.Views
import Octane.Transport.Frame
import Octane.Transport.Framing
import Octane.Transport.Machine
import Octane.Transport.Rolling
import Octane.Transport.Turn
import Octane.Transport.Operations
import Octane.Transport.Persistence
import Octane.Transport.CloseRequest
import Octane.Router.Soundness
import Octane.Router.Tiers
import Octane.Transport.TcpServer
import Octane.Transport.Release
import Octane.Transport.Workers
import Octane.Transport.Slots
import Octane.Transport.Admission
import Octane.Transport.Acceptor
import Octane.Transport.History
import Octane.Transport.Drain
import Octane.Transport.StopTask
import Octane.Lib.Delimited
import Octane.Transport.Transcript
import Octane.Transport.Readable
import Octane.Transport.Conversation
import Octane.Transport.Isolation
import Octane.Transport.Lifetime
import Octane.Transport.Shutdown
import Octane.Transport.WholeRequest
import Octane.Transport.StringDispatch
import Octane.Router.Order
import Octane.Transport.Progress
import Octane.Router.PathStorage
import Octane.Transport.WiderLimits
import Octane.Utils.Reopening
import Octane.Transport.Footprint
import Octane.Transport.Intermediary
