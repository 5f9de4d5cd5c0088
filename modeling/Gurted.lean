import Gurted.Lib.Occurrence
import Gurted.Lib.Blocks
import Gurted.Lib.Distinct
import Gurted.Lib.Lts
import Gurted.Lib.Permits
import Gurted.Lib.Registry
import Gurted.Std.Str
import Gurted.Std.Slice
import Gurted.Std.Unicode
import Gurted.Std.Utf8
import Gurted.Std.Num
import Gurted.Std.Float
import Gurted.Api.Status
import Gurted.Api.HttpLike
import Gurted.Api.Reading
import Gurted.Api.Until
import Gurted.Api.OneShot
import Gurted.Api.Wire
import Gurted.Api.Respond
import Gurted.Api.Handshake
import Gurted.Server.KeepAlive
import Gurted.Crawler.Robots
import Gurted.Crawler.RobotsBlocks
import Gurted.Crawler.RobotsGroups
import Gurted.Crawler.RobotsRules
import Gurted.Crawler.Sitemap
import Gurted.Crawler.Render
import Gurted.Crawler.Scripts
import Gurted.Std.Json
import Gurted.Std.Path
import Gurted.Query.Parse
import Gurted.Index.Analysis
import Gurted.Index.Engine
import Gurted.Index.Search
import Gurted.Storage.Domains
import Gurted.Crawler.Pipeline
import Gurted.Indexing.Fetch
import Gurted.Indexing.Process
import Gurted.Indexing.Service
import Gurted.Router.Submission
import Gurted.Router.Util
import Gurted.Router.Ui
import Gurted.Router.Routes
import Gurted.Search.HotCache
import Gurted.Router.Search
import Gurted.Router.RateLimiter
import Gurted.Indexing.Crash
import Gurted.Client.Response
import Gurted.Client.RoundTrip
import Gurted.Indexing.Dns
import Gurted.Client.Handshake
import Gurted.Crawler.Scheduler
import Gurted.Crawler.SchedulerLimits
import Gurted.Crawler.SchedulerGates
import Gurted.Crawler.SchedulerProgress
import Gurted.Crawler.Politeness
import Gurted.Lib.Walk
import Gurted.Std.Net
import Gurted.Router.ExtWeb
import Gurted.Router.TypedQuery
import Gurted.Indexing.Resolve
import Gurted.Indexing.DnsCache
import Gurted.Indexing.Candidates
import Gurted.Indexing.Budget
import Gurted.Crawler.CrawlDelay
import Gurted.Client.RobotsFetch
import Gurted.Lib.StableSort
import Gurted.Search.Merge
import Gurted.Search.Gather
import Gurted.Std.Scan
import Gurted.Link.ExtractLinks
import Gurted.Link.Anchors
import Gurted.Client.DeclaredLength
import Gurted.Client.Buffering
import Gurted.Storage.Connect
import Gurted.Query.Compose
import Gurted.Router.SameQuery
import Gurted.Router.ResultsPage
import Gurted.Crawler.SchedulerAdmission
import Gurted.Lib.PowerIteration
import Gurted.Link.Graph
import Gurted.Std.Decimal
import Gurted.Link.Authority
import Gurted.Lib.Reader
import Gurted.Server.Calls
import Gurted.Client.Calls
import Gurted.Dialogue.Call
import Gurted.Dialogue.Fetch
import Gurted.Dialogue.Messages
import Gurted.Dialogue.Safety
import Gurted.Dialogue.Progress
import Gurted.Recovery.Node
import Gurted.Recovery.Invariant
import Gurted.Recovery.Resume
import Gurted.Recovery.Completion
import Gurted.Router.AddSite
import Gurted.Lib.OnceCell
import Gurted.Lib.Rank
import Gurted.Storage.Lifecycle
import Gurted.Storage.OnePool
import Gurted.Storage.LifecycleProgress
import Gurted.Indexing.Shown
import Gurted.Indexing.Searchable
import Gurted.Router.SearchRuns
import Gurted.Lib.Stationary
import Gurted.Link.Convergence
import Gurted.Router.DomainForm
import Gurted.Router.Rescore
import Gurted.Router.Answers
import Gurted.Dialogue.Crawl
import Gurted.Indexing.Title
import Gurted.Indexing.DnsRecent
import Gurted.Indexing.Restarts
import Gurted.Search.Sharded
