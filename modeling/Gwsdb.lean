import Gwsdb.Lib.Interleaving
import Gwsdb.Lib.Schedule
import Gwsdb.Lib.Table
import Gwsdb.Lib.Ranked
import Gwsdb.Lib.Digits
import Gwsdb.Lib.Chunks
import Gwsdb.Lib.JsNumber
import Gwsdb.Lib.IsoTime
import Gwsdb.Lib.Transition
import Gwsdb.Lib.Outbox
import Gwsdb.Theorems.FlushBuffer
import Gwsdb.Lemmas.Knowledge
import Gwsdb.Theorems.Recovery
import Gwsdb.Web.HomeCache
import Gwsdb.Theorems.CacheExact
import Gwsdb.Net.IpAddr
import Gwsdb.Lemmas.IpAddr
import Gwsdb.Lemmas.AsnCache
import Gwsdb.Web.AsnCache
import Gwsdb.Theorems.AsnGate
import Gwsdb.Theorems.AddressKey
import Gwsdb.Store.Date
import Gwsdb.Store.CheckRows
import Gwsdb.Store.Database
import Gwsdb.Store.Site
import Gwsdb.Store.Programs
import Gwsdb.Store.Standing
import Gwsdb.Web.Requests
import Gwsdb.Lemmas.Statements
import Gwsdb.Lemmas.Coalesce
import Gwsdb.Lemmas.History
import Gwsdb.Lemmas.Batches
import Gwsdb.Lemmas.Submissions
import Gwsdb.Lemmas.PoolUpdate
import Gwsdb.Lemmas.PoolVersions
import Gwsdb.Theorems.DeltaExact
import Gwsdb.Theorems.HistoryVersion
import Gwsdb.Theorems.NoTrace
import Gwsdb.Theorems.NoLoss
import Gwsdb.Lemmas.Ingest
import Gwsdb.Lemmas.Standing
import Gwsdb.Lemmas.ChecksInOrder
import Gwsdb.Theorems.GateAgreement
import Gwsdb.Theorems.BadInput
import Gwsdb.Theorems.SyncConverges
import Gwsdb.Theorems.FlushToken
import Gwsdb.Store.PtrRefresh
import Gwsdb.Theorems.PtrRoundRobin
import Gwsdb.Lib.DnsMessage
import Gwsdb.Net.DnsWire
import Gwsdb.Lemmas.DnsWire
import Gwsdb.Theorems.DnsDecode
import Gwsdb.Store.PtrQueries
import Gwsdb.Theorems.DnsCut
import Gwsdb.Lib.Runs
import Gwsdb.Scan.IpRange
import Gwsdb.Lemmas.AddrText
import Gwsdb.Theorems.DrawnAddress
import Gwsdb.Theorems.CidrParser
import Gwsdb.Theorems.LongestPrefix
import Gwsdb.Theorems.Ipv6Grammar
import Gwsdb.Theorems.Ipv6Canonical
import Gwsdb.Theorems.Coalescing
import Gwsdb.Lib.Sieve
import Gwsdb.Theorems.FilterGate
import Gwsdb.Theorems.Observations
import Gwsdb.Theorems.PruneCandidates
import Gwsdb.Theorems.Pruning
import Gwsdb.Theorems.Heartbeat
import Gwsdb.Lemmas.Visits
import Gwsdb.Theorems.HistoryCount
import Gwsdb.Theorems.PoolAgrees
import Gwsdb.Lemmas.Retry
import Gwsdb.Theorems.Retry
import Gwsdb.Scan.NetErr
import Gwsdb.Recheck.Sni
import Gwsdb.Theorems.ProbeVerdict
import Gwsdb.Lib.RunningMin
import Gwsdb.Net.DnsQuery
import Gwsdb.Store.Lookups
import Gwsdb.Lemmas.DnsQuery
import Gwsdb.Theorems.PtrEncoding
import Gwsdb.Theorems.LeastTTL
import Gwsdb.Lib.Framing
import Gwsdb.Store.PtrPipeline
import Gwsdb.Theorems.PtrChunks
import Gwsdb.Theorems.PtrStaleness
import Gwsdb.Lib.Reconcile
import Gwsdb.Store.Publish
import Gwsdb.Web.Publish
import Gwsdb.Theorems.Publishing
import Gwsdb.Lib.FixedWindow
import Gwsdb.Store.RateLimit
import Gwsdb.Theorems.MeasuredPublish
import Gwsdb.Theorems.Quota
import Gwsdb.Theorems.TwoPaths
import Gwsdb.Lib.Rounds
import Gwsdb.Theorems.NameWalk
import Gwsdb.Theorems.Consensus
import Gwsdb.Theorems.UniformDraws
import Gwsdb.Theorems.SourceAddress
import Gwsdb.Lib.Separator
import Gwsdb.Store.PtrCache
import Gwsdb.Theorems.StoredNames
import Gwsdb.Lib.SqlText
import Gwsdb.Store.Normalization
import Gwsdb.Theorems.SqlNormalizer
import Gwsdb.Lib.Regex
import Gwsdb.Lib.JsCase
import Gwsdb.Web.Geo
import Gwsdb.Theorems.Siblings
import Gwsdb.Lib.Signal
import Gwsdb.Lib.BoundedPool
import Gwsdb.Web.History
import Gwsdb.Web.PtrResolve
import Gwsdb.Lemmas.HistorySignal
import Gwsdb.Lemmas.HistoryTabs
import Gwsdb.Theorems.HistoryAnswers
import Gwsdb.Theorems.HistoryViews
import Gwsdb.Theorems.PtrResolver
import Gwsdb.Recheck.Ping
import Gwsdb.Theorems.PingReplies
import Gwsdb.Recheck.Probe
import Gwsdb.Theorems.ProbeEvidence
import Gwsdb.Scan.FetchPool
import Gwsdb.Lemmas.Dates
import Gwsdb.Web.EdgeCache
import Gwsdb.Web.PoolEndpoint
import Gwsdb.Lemmas.SearchParams
import Gwsdb.Lemmas.PoolRows
import Gwsdb.Theorems.PoolAnswers
import Gwsdb.Scan.Feeder
import Gwsdb.Theorems.RecheckCycles
import Gwsdb.Web.Home
import Gwsdb.Lemmas.HomeServer
import Gwsdb.Theorems.HomeSync
import Gwsdb.Lib.CallRules
import Gwsdb.Recheck.ProbeServer
import Gwsdb.Web.Check
import Gwsdb.Lemmas.Gates
import Gwsdb.Theorems.OnDemand
import Gwsdb.Lib.Markup
import Gwsdb.Lib.UrlEncoded
import Gwsdb.Web.Html
import Gwsdb.Web.QueryPage
import Gwsdb.Web.HomePage
import Gwsdb.Lemmas.Pages
import Gwsdb.Theorems.Pages
import Gwsdb.Lib.Paging
import Gwsdb.Web.HomeTable
import Gwsdb.Theorems.HomeTable
import Gwsdb.Web.HomeRequests
import Gwsdb.Lemmas.TableRows
import Gwsdb.Theorems.NoScript
import Gwsdb.Web.Auth
import Gwsdb.Theorems.Tokens
import Gwsdb.Web.HistoryPager
import Gwsdb.Theorems.HistoryPages
