import Yaffle.Gelf.Expiry
import Yaffle.Gelf.Senders
import Yaffle.Ingest.Datagrams
import Yaffle.Ingest.HostNames
import Yaffle.Ingest.Submission
import Yaffle.Gelf.Reparse
import Yaffle.Ingest.Startup
import Yaffle.Schema.Fallback
import Yaffle.Schema.Instants
import Yaffle.Chrono.Calendar
import Yaffle.Syslog.Year
import Yaffle.Core.Consumption
import Yaffle.Syslog.Split
import Yaffle.Syslog.Bare
import Yaffle.Syslog.RecvLoop
import Yaffle.Search.Table
import Yaffle.Search.Window
import Yaffle.Search.Cookies
import Yaffle.Core.Channel
import Yaffle.Ingest.Rounds
import Yaffle.Server.System
import Yaffle.Gelf.InTime
import Yaffle.Gelf.Quiescence
import Yaffle.Server.Delivery
import Yaffle.Server.Progress
import Yaffle.Ingest.Cells
import Yaffle.Schema.Legible
import Yaffle.Search.Answer
import Yaffle.Search.Lossless
import Yaffle.Search.Page
import Yaffle.Search.Session
import Yaffle.Server.Shown
import Yaffle.Ingest.Backoff
import Yaffle.Ingest.Objects
import Yaffle.Macros.Attributes
import Yaffle.Macros.Generated
import Yaffle.Server.Indexed
import Yaffle.Server.EndToEnd
import Yaffle.Quickwit.Lossless
import Yaffle.Server.Searched
