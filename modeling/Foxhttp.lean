import Foxhttp.Library.Transition
import Foxhttp.Middleware.Ledger
import Foxhttp.Middleware.Chain
import Foxhttp.Middleware.Refinement
import Foxhttp.Middleware.Positions
import Foxhttp.Middleware.Registry
import Foxhttp.Middleware.Finish
import Foxhttp.Middleware.Signals
import Foxhttp.Middleware.Framing
import Foxhttp.Middleware.Timeouts
import Foxhttp.Middleware.Synchronous
import Foxhttp.Middleware.Exceptions
import Foxhttp.Middleware.AwaitMiddleware
import Foxhttp.Library.Sorter
import Foxhttp.Library.Text
import Foxhttp.Library.UrlEncoded
import Foxhttp.Library.MessageHead
import Foxhttp.Library.FilePath
import Foxhttp.Library.Wildcard
import Foxhttp.Router.Binding
import Foxhttp.Router.Lookup
import Foxhttp.Router.Order
import Foxhttp.Router.Classification
import Foxhttp.Router.Shadowing
import Foxhttp.Library.Json.Lexical
import Foxhttp.Library.Json.Reader
import Foxhttp.Library.Json.Strings
import Foxhttp.Parser.Json
import Foxhttp.Parser.JsonPreprocess
import Foxhttp.Parser.JsonPreserved
import Foxhttp.Client.Accounting
import Foxhttp.Library.StreamMachine
import Foxhttp.Parser.Multipart
import Foxhttp.Parser.MultipartChunks
import Foxhttp.Server.StrandPool
import Foxhttp.Server.StrandResize
import Foxhttp.Config.Document
import Foxhttp.Config.Loading
import Foxhttp.Config.Replica
import Foxhttp.Config.Formats
import Foxhttp.Config.FormatSections
import Foxhttp.Config.TwoFormats
import Foxhttp.Library.Window
import Foxhttp.Middleware.RateLimit
import Foxhttp.Middleware.StaticFiles
import Foxhttp.Server.TimerBucket
import Foxhttp.Server.TimerLocks
import Foxhttp.Server.TimerArming
import Foxhttp.Server.QueryParameters
import Foxhttp.Server.KeepAlive
import Foxhttp.Parser.MultipartLimits
import Foxhttp.Parser.MultipartRoundTrip
import Foxhttp.Parser.Form
import Foxhttp.Client.Ownership
import Foxhttp.Library.Utf8
import Foxhttp.Parser.PlainText
import Foxhttp.Server.TimerManager
import Foxhttp.Server.TimerCancellation
import Foxhttp.Server.SessionAffinity
import Foxhttp.Middleware.PipelineOrder
import Foxhttp.Library.Fields
import Foxhttp.Middleware.Overloads
import Foxhttp.Middleware.BuiltIn
import Foxhttp.Middleware.Moves
import Foxhttp.Middleware.WholePipeline
import Foxhttp.Middleware.AfterCompletion
import Foxhttp.Middleware.Leaving
import Foxhttp.Middleware.OwnTimeouts
import Foxhttp.Library.Heap
import Foxhttp.Library.PercentDecoding
import Foxhttp.Library.Preference
import Foxhttp.Server.TimerConfiguration
import Foxhttp.Server.TimerStopping
import Foxhttp.Server.StrandSelection
import Foxhttp.Middleware.RateLimitKeys
import Foxhttp.Parser.JsonStrictness
import Foxhttp.Parser.MultipartReset
import Foxhttp.Router.GlobalRouter
import Foxhttp.Client.RequestBuilder
import Foxhttp.Server.UrlDecoders
import Foxhttp.Middleware.Negotiation
import Foxhttp.Library.Removal
import Foxhttp.Library.Entries
import Foxhttp.Library.Base64
import Foxhttp.Middleware.ContentCoding
import Foxhttp.Parser.FormLimits
import Foxhttp.Server.StrandIdlest
import Foxhttp.Client.AbsoluteUrl
import Foxhttp.Middleware.BodyDispatch
import Foxhttp.Parser.MultipartDecoding
import Foxhttp.Server.RequestContext
import Foxhttp.Middleware.Authentication
import Foxhttp.Middleware.DigestParameters
import Foxhttp.Middleware.AuthGate
import Foxhttp.Middleware.StaticPrefix
import Foxhttp.Library.Shares
import Foxhttp.Library.Json.Closings
import Foxhttp.Middleware.HeadRequests
import Foxhttp.Server.TimerPass
import Foxhttp.Server.StrandReconfigure
import Foxhttp.Server.LeastConnections
import Foxhttp.Server.SessionGrowth
import Foxhttp.Server.WeightedSelection
import Foxhttp.Config.Accessors
import Foxhttp.Config.Merging
import Foxhttp.Parser.TrailingCommas
import Foxhttp.Library.Trimming
import Foxhttp.Library.QuotedPrintable
import Foxhttp.Library.Replacing
import Foxhttp.Parser.JsonDepth
import Foxhttp.Parser.QuotedPrintable
import Foxhttp.Parser.FieldParsing
import Foxhttp.Parser.HeaderFraming
import Foxhttp.Parser.Disposition
import Foxhttp.Parser.PlainTextProcessing
import Foxhttp.Router.DynamicRegistration
import Foxhttp.Router.Introspection
import Foxhttp.Server.SessionTimeouts
import Foxhttp.Server.Cookies
import Foxhttp.Router.CanonicalPaths
import Foxhttp.Config.Watcher
import Foxhttp.Config.WatchedRuns
import Foxhttp.Library.Turns
import Foxhttp.Server.StrandTurns
import Foxhttp.Server.StrandLife
import Foxhttp.Server.SslHandshake
import Foxhttp.Server.WebSocketEcho
import Foxhttp.Server.AcceptLoop
import Foxhttp.Client.IdleAges
import Foxhttp.Client.Drops
import Foxhttp.Client.Transfer
import Foxhttp.Library.Periodic
import Foxhttp.Server.HealthChecks
import Foxhttp.Library.Json.Unescaped
import Foxhttp.Middleware.JsonTexts
import Foxhttp.Library.Directory
import Foxhttp.Router.NamedTables
import Foxhttp.Parser.Boundary
import Foxhttp.Server.SignalSet
