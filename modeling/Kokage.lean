import Kokage.Supervisor.Types
import Kokage.Lib.Act
import Kokage.Lib.Slab
import Kokage.Supervisor.Intensity
import Kokage.Supervisor.Runtime
import Kokage.Supervisor.Machine
import Kokage.Supervisor.Ledger
import Kokage.Supervisor.Abstraction
import Kokage.Supervisor.Books
import Kokage.Supervisor.Starting
import Kokage.Supervisor.Exits
import Kokage.Supervisor.Drains
import Kokage.Supervisor.Runs
import Kokage.Supervisor.Consistency
import Kokage.Supervisor.Grammar
import Kokage.Supervisor.Snapshots
import Kokage.Supervisor.Readiness
import Kokage.Lib.Coalesce
import Kokage.Lifecycle.Queue
import Kokage.Lifecycle.Hub
import Kokage.Lifecycle.Observation
import Kokage.Lifecycle.Order
import Kokage.Tree.Lower
import Kokage.Tree.Terminality
import Kokage.Lib.Steps
import Kokage.Actor.Binding
import Kokage.Actor.Terminality
import Kokage.Actor.Monitor
import Kokage.Actor.Disposition
import Kokage.Actor.Group
import Kokage.Supervisor.Shutdown
import Kokage.Supervisor.Handlers
import Kokage.Supervisor.Halting
import Kokage.Supervisor.Staging
import Kokage.Supervisor.Sequencing
import Kokage.Supervisor.Regrouping
import Kokage.Supervisor.StartOrder
import Kokage.Tree.Incarnations
import Kokage.Identity.Channels
import Kokage.Identity.Fence
import Kokage.Identity.Lineages
import Kokage.Identity.Wait
import Kokage.Supervisor.Startup
import Kokage.Supervisor.Sealing
import Kokage.Supervisor.Verdict
import Kokage.Supervisor.Judging
import Kokage.Supervisor.Finality
import Kokage.Supervisor.Answers
import Kokage.Supervisor.Winding
import Kokage.Supervisor.Replies
import Kokage.Supervisor.Removals
import Kokage.Supervisor.Accounts
import Kokage.Supervisor.Restarts
import Kokage.Actor.Delivery
import Kokage.Actor.Pump
import Kokage.Supervisor.Forwarding
import Kokage.Actor.WatchQueue
import Kokage.Lifecycle.Handoff
import Kokage.Lifecycle.Feed
import Kokage.Supervisor.Tracking
import Kokage.Supervisor.Succession
import Kokage.Actor.Conflating
import Kokage.Actor.Interval
import Kokage.Actor.Timers
import Kokage.Actor.Handler
import Kokage.Lifecycle.Chain
import Kokage.Actor.TimerWindow
import Kokage.Supervisor.Writes
import Kokage.Supervisor.Refusals
import Kokage.Identity.Admission
import Kokage.Lib.Window
import Kokage.Supervisor.Budgets
import Kokage.Supervisor.Deadlines
import Kokage.Supervisor.Backoff
import Kokage.Lib.Xorshift
import Kokage.Supervisor.Horizon
import Kokage.Actor.Outbound
import Kokage.Identity.Reconcile
import Kokage.Tree.Outline
import Kokage.Supervisor.Completion
import Kokage.Supervisor.Awaiting
import Kokage.Supervisor.Reporting
