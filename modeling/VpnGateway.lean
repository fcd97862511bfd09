import VpnGateway.Core.Runs
import VpnGateway.Core.FinMap
import VpnGateway.Core.TopN
import VpnGateway.Core.Text
import VpnGateway.Core.Utf8
import VpnGateway.Core.Wire
import VpnGateway.Core.Socks5
import VpnGateway.Core.Json
import VpnGateway.Core.Tls
import VpnGateway.Core.Http
import VpnGateway.Core.Disk
import VpnGateway.Pool.Proxy
import VpnGateway.Pool.StickySessions
import VpnGateway.Pool.State
import VpnGateway.Pool.Selection
import VpnGateway.Api.Web
import VpnGateway.Pool.Operations
import VpnGateway.Pool.Breaker
import VpnGateway.Pool.Capacity
import VpnGateway.Pool.Revalidation
import VpnGateway.Api.Bans
import VpnGateway.Api.NetworkStatus
import VpnGateway.Proxy.Transparent
import VpnGateway.Proxy.Affinity
import VpnGateway.Proxy.FirstReady
import VpnGateway.Pool.Persistence
import VpnGateway.Pool.SaveRace
import VpnGateway.Proxy.Upstream
import VpnGateway.Proxy.Sniff
import VpnGateway.Proxy.ServerName
import VpnGateway.Proxy.HttpHost
import VpnGateway.Proxy.SniffCuts
import VpnGateway.Proxy.ConnectRequest
import VpnGateway.Proxy.Socks5Handshake
import VpnGateway.Pool.HealthChecker
import VpnGateway.Pool.ReplyReaders
import VpnGateway.Pool.Keys
import VpnGateway.Api.AddRace
import VpnGateway.Api.Health
import VpnGateway.Pool.Retirement
import VpnGateway.Pool.GeoIndex
import VpnGateway.Proxy.StickyDisabled
import VpnGateway.Core.Locks
import VpnGateway.Proxy.Udp
import VpnGateway.Core.Tasks
import VpnGateway.Pool.WarmPool
import VpnGateway.Pool.WarmPoolProgress
import VpnGateway.Pool.WarmPoolDeadlock
import VpnGateway.Proxy.WarmConnections
import VpnGateway.Core.Ini
import VpnGateway.Core.PyText
import VpnGateway.Services.PeerConfigs
import VpnGateway.Pool.CleanSelection
import VpnGateway.Pool.Weights
import VpnGateway.Proxy.StaleKeys
import VpnGateway.Proxy.Retries
import VpnGateway.Pool.Sources
import VpnGateway.Core.Timeout
import VpnGateway.Proxy.Relay
import VpnGateway.Proxy.ConnectionCount
import VpnGateway.Proxy.SilentUpstream
import VpnGateway.Core.Futures
import VpnGateway.Pool.CheckFuture
import VpnGateway.Pool.EndlessHeaders
import VpnGateway.Pool.TlsVerdicts
import VpnGateway.Pool.SessionTtl
import VpnGateway.Pool.SessionHistory
import VpnGateway.Api.BanRoundTrip
import VpnGateway.Proxy.Socks5Transcripts
import VpnGateway.Proxy.ConnectVerdict
import VpnGateway.Proxy.ServerNameBounds
import VpnGateway.Core.HttpRequest
import VpnGateway.Proxy.SniffSafety
import VpnGateway.Proxy.HostHeader
import VpnGateway.Core.MaximalRuns
import VpnGateway.Pool.Streaks
import VpnGateway.Pool.ScoreOrder
import VpnGateway.Pool.SessionExpiry
import VpnGateway.Pool.ExpiryRace
import VpnGateway.Core.Numerals
import VpnGateway.Pool.SourceLines
import VpnGateway.Services.LeaseRenewal
import VpnGateway.Proxy.UdpSenders
import VpnGateway.Services.PeerScans
import VpnGateway.Core.Exposition
import VpnGateway.Pool.Metrics
import VpnGateway.Core.Supply
import VpnGateway.Pool.WarmPoolRuns
import VpnGateway.Core.MovingAverage
import VpnGateway.Pool.Latency
import VpnGateway.Pool.ConnectionPool
import VpnGateway.Core.Backlog
import VpnGateway.Pool.CheckQueue
import VpnGateway.Core.JsonFields
import VpnGateway.Settings.Config
import VpnGateway.Settings.Reload
import VpnGateway.Core.Permits
import VpnGateway.Pool.GeoLookups
import VpnGateway.Core.Totals
import VpnGateway.Proxy.UdpAccounts
import VpnGateway.Pool.Restart
import VpnGateway.Core.Ledger
import VpnGateway.Pool.Accounting
import VpnGateway.Pool.Collect
import VpnGateway.Core.Paths
import VpnGateway.Services.ConfigServer
import VpnGateway.Pool.ProbeOrder
import VpnGateway.Core.Gather
import VpnGateway.Pool.SourceRefresh
import VpnGateway.Proxy.ListenerProgress
import VpnGateway.Pool.WarmListing
import VpnGateway.Api.Listing
import VpnGateway.Api.Peers
import VpnGateway.Services.PortMapping
import VpnGateway.Core.Pipe
import VpnGateway.Proxy.DataPath
