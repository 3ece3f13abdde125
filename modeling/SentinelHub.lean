import SentinelHub.Broker.RouterWakeup
import SentinelHub.Broker.Conservation
import SentinelHub.Broker.LogOffset
import SentinelHub.Broker.TimeTravel
import SentinelHub.Broker.Handover
import SentinelHub.Client.Readers
import SentinelHub.Broker.SessionRun
import SentinelHub.Broker.RouterStop
import SentinelHub.Broker.FanOut
import SentinelHub.Broker.PublisherOrder
import SentinelHub.Broker.HistoryOrder
import SentinelHub.Broker.Rest
import SentinelHub.Broker.Restarts
import SentinelHub.Dashboard.Sse
import SentinelHub.Dashboard.Proxy
import SentinelHub.Dashboard.TimeTravel
import SentinelHub.Dashboard.Inspector
import SentinelHub.Dashboard.Http
import SentinelHub.Dashboard.PageRuns
import SentinelHub.Home.Lossless
import SentinelHub.Home.Replays
import SentinelHub.Home.Metrics
import SentinelHub.Home.Settling
