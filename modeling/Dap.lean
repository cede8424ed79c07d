import Dap.Hub.Replay
import Dap.Hub.Confinement
import Dap.Hub.Credentials
import Dap.Hub.Fanout
import Dap.Hub.Rejection
import Dap.Hub.Dedupe
import Dap.Hub.Authorized
import Dap.Adapter.Signing
import Dap.Hub.TypedView
import Dap.Hub.Durability
import Dap.Adapter.SharedFiles
import Dap.Hub.Reconnect
import Dap.Hub.Routing
import Dap.Hub.Checks
import Dap.Adapter.Meaning
import Dap.Adapter.Compaction
import Dap.Adapter.Verdicts
import Dap.Adapter.PluginRosters
import Dap.Adapter.RetiredSockets
import Dap.Hub.Blindness
import Dap.Adapter.Sealing
import Dap.Adapter.CanonicalJson
import Dap.Adapter.KnownKeys
import Dap.Adapter.NameResolution
import Dap.Adapter.GlossReload
import Dap.Adapter.Abbreviations
import Dap.Adapter.KeepAlive
import Dap.Hub.SendQueue
import Dap.Adapter.KeyFiles
import Dap.Adapter.HubUrls
import Dap.Adapter.ChannelsFile
import Dap.Adapter.Shutdown
import Dap.Adapter.Recovery
import Dap.Adapter.ArrivalOrder
import Dap.Hub.Strangers
import Dap.Adapter.EndToEnd
import Dap.Hub.Issuing
import Dap.Hub.Requests
