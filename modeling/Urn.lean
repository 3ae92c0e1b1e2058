import Urn.CommandLine.Agreement
import Urn.Demi.Tokens
import Urn.Foundation.Directory
import Urn.Latch
import Urn.Libuv.Slots
import Urn.Relay.Accounting
import Urn.Relay.Conservation
import Urn.Relay.Directory
import Urn.Relay.Interchange
import Urn.Relay.Rate
import Urn.Relay.Routing
import Urn.Seastar
import Urn.StackFamily
import Urn.Truncation
import Urn.Uring.Exhaustion
import Urn.Libuv.Service
import Urn.Mmsg.Service
import Urn.Uring.Service
import Urn.Seastar.Service
import Urn.Service
import Urn.Foundation.Sections
import Urn.Relay.Mutex
import Urn.Foundation.Sequential
import Urn.Startup.Basic
import Urn.Startup.Completion
import Urn.Foundation.Ledger
import Urn.Relay.Holdings
import Urn.Libuv.Accounting
import Urn.Uring.Accounting
import Urn.Relay.Linearization
import Urn.Counters
