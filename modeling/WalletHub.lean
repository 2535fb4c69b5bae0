import WalletHub.Text.Fold
import WalletHub.Text.Blank
import WalletHub.Text.Digits
import WalletHub.Number.DecimalText
import WalletHub.Time.InstantText
import WalletHub.Json.Printer
import WalletHub.Json.Parser
import WalletHub.Json.Reading
import WalletHub.Wallet.Order
import WalletHub.SyncState
import WalletHub.Account
import WalletHub.Event
import WalletHub.Error
import WalletHub.Config
import WalletHub.Encoding.Event
import WalletHub.Disk
import WalletHub.Stream.Throttle
import WalletHub.Log
import WalletHub.Provider
import WalletHub.Tracker
import WalletHub.Tracker.Monitor
import WalletHub.Memory.Store
import WalletHub.Memory.System
import WalletHub.Scripted
import WalletHub.Board
import WalletHub.Hub
import WalletHub.Subscription
import WalletHub.World
import WalletHub.World.Action
import WalletHub.Proofs.Text.Digits
import WalletHub.Proofs.Json.RoundTrip
import WalletHub.Proofs.Json.Reading
import WalletHub.Proofs.Time.Calendar
import WalletHub.Proofs.Time.InstantText
import WalletHub.Proofs.Encoding.Wallet
import WalletHub.Proofs.Encoding.Event
import WalletHub.Proofs.Disk
import WalletHub.Proofs.Transfer
import WalletHub.Proofs.Memory.Storage
import WalletHub.Proofs.Encoding.Domain
import WalletHub.Proofs.Memory.Incidents
import WalletHub.Proofs.Memory.Commands
import WalletHub.Proofs.Memory.Held
import WalletHub.Proofs.Stream.Following
import WalletHub.Proofs.Hub.Task
import WalletHub.Proofs.Hub.Opening
import WalletHub.Proofs.Hub.Change
import WalletHub.Proofs.Hub.Lifecycle
import WalletHub.Proofs.Hub.Wallets
import WalletHub.Proofs.Hub.Updates
import WalletHub.Proofs.World.Moves
import WalletHub.Proofs.World.Effect
import WalletHub.Proofs.World.Listening
import WalletHub.Proofs.Memory.Restart
import WalletHub.Proofs.Subscription.Asking
import WalletHub.Proofs.Subscription.Wallets
import WalletHub.Proofs.Subscription.Transfer
import WalletHub.Proofs.Hub.Reconciling
import WalletHub.Proofs.Hub.News
import WalletHub.Proofs.Subscription.Transfers
import WalletHub.Proofs.Memory.Lineage
import WalletHub.Proofs.Hub.Progress
import WalletHub.Proofs.Tracker.Learning
import WalletHub.Proofs.Hub.Tracking
import WalletHub.Proofs.World.Steps
import WalletHub.Proofs.Subscription.Tracked
import WalletHub.Proofs.Hub.Step
import WalletHub.Proofs.World.Course
import WalletHub.Proofs.World.Threads
import WalletHub.Proofs.World.Newest
import WalletHub.Proofs.World.Attending
import WalletHub.Proofs.World.Closed
import WalletHub.Proofs.Subscription.Sync
import WalletHub.Proofs.Memory.Sharing
import WalletHub.Proofs.Memory.Story
import WalletHub.Proofs.Memory.Timing
import WalletHub.Proofs.World.Schedules
import WalletHub.Proofs.World.Around
import WalletHub.Proofs.World.Serene
import WalletHub.Proofs.World.Panics
import WalletHub.Proofs.Disk.Directories
import WalletHub.Proofs.Hub.Refused
import WalletHub.Proofs.Disk.Files
import WalletHub.Proofs.Memory.Usable
import WalletHub.Proofs.World.Onlookers
import WalletHub.Proofs.Subscription.Independence
import WalletHub.Proofs.World.Twins
import WalletHub.Proofs.Subscription.Spelling
import WalletHub.Proofs.Tracker.Exact
import WalletHub.Proofs.Hub.Managed
import WalletHub.Proofs.Stream.Pacing
import WalletHub.Proofs.Tracker.Tidy
import WalletHub.Proofs.Subscription.Ids
import WalletHub.Proofs.Subscription.Waning
import WalletHub.Proofs.Subscription.Remains
import WalletHub.Proofs.World.Orphans
import WalletHub.Proofs.Hub.Callbacks
import WalletHub.Proofs.World.Currencies
import WalletHub.Proofs.Wallet.Order
import WalletHub.Proofs.Memory.Arrivals
import WalletHub.Proofs.Memory.Locality
import WalletHub.Proofs.Number.Fraction
import WalletHub.Proofs.World.Fractions
import WalletHub.Proofs.Provider
import WalletHub.Proofs.Subscription.Enabled
import WalletHub.Proofs.Wallet.Transfers
import WalletHub.Proofs.Stream.Registry
import WalletHub.Proofs.Text.Trim
import WalletHub.Proofs.Config
