import PokrovCore.Awg.InstructionChain
import PokrovCore.Config.Endpoints
import PokrovCore.Config.LegacyDns
import PokrovCore.Config.Outbounds
import PokrovCore.Daemon.Acknowledge
import PokrovCore.Daemon.AppliedEffects
import PokrovCore.Daemon.CatalogHost
import PokrovCore.Daemon.JournalCrash
import PokrovCore.Daemon.JournalSize
import PokrovCore.Daemon.Lifecycle
import PokrovCore.Daemon.SignedPayload
import PokrovCore.Dnstt.Packet
import PokrovCore.Group.UrlTest
import PokrovCore.LinuxDaemon.HostControl
import PokrovCore.LinuxDaemon.Promotion
import PokrovCore.LocalDpi.ObservedConn
import PokrovCore.LocalDpi.Paths
import PokrovCore.LocalDpi.ProtectedVpn
import PokrovCore.LocalDpi.WindowsRetry
import PokrovCore.Monitoring.Stages
import PokrovCore.Observability.Order
import PokrovCore.Ray2sing.Subscription
import PokrovCore.Route.Providers
import PokrovCore.Slipstream.DnsRelay
import PokrovCore.SmartAccess.BreakerPolicy
import PokrovCore.SmartAccess.ClockBounds
import PokrovCore.SmartAccess.HelloGrammar
import PokrovCore.SmartAccess.HelloReader
import PokrovCore.SmartAccess.NameScope
import PokrovCore.SmartAccess.ProbeFailure
import PokrovCore.SmartAccess.RelayConnect
import PokrovCore.SmartAccess.Retention
import PokrovCore.SmartAccess.Revocation
import PokrovCore.TelegramWs.Gateway
import PokrovCore.TelegramWs.Preflight
import PokrovCore.Xhttp.UploadQueue
