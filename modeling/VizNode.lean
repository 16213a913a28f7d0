import VizNode.Lib.Prog
import VizNode.Lib.Undo
import VizNode.Protocol
import VizNode.ForkDatabase.Model
import VizNode.ForkDatabase.Links
import VizNode.ForkDatabase.Branches
import VizNode.ForkDatabase.Arrivals
import VizNode.ForkDatabase.Seeds
import VizNode.ForkDatabase.Tips
import VizNode.Chain.Objects
import VizNode.Chain.Schedule
import VizNode.Chain.Apply
import VizNode.Chain.Database
import VizNode.Chain.Irreversible
import VizNode.Chain.ApplyBlock
import VizNode.Chain.PushBlock
import VizNode.Chain.Runs
import VizNode.ForkDatabase.MainBranch
import VizNode.Chain.Frames
import VizNode.Chain.Stages
import VizNode.Chain.Moves
import VizNode.Chain.Pending
import VizNode.Chain.Preference
import VizNode.Chain.Layers
import VizNode.Chain.Finality
import VizNode.Chain.Logs
import VizNode.Chain.Restart
import VizNode.Chain.Quorum
import VizNode.Chain.Replay
import VizNode.Chain.Determined
import VizNode.Chain.Traces
import VizNode.Chain.Checkpoints
import VizNode.Chain.CoreTicks
import VizNode.Chain.VirtualTime
import VizNode.Chain.Rounds
import VizNode.Chain.Penalties
import VizNode.Chain.Choice
import VizNode.Chain.Cascade
import VizNode.Chain.ForkHead
import VizNode.Chain.Refusals
import VizNode.Lib.Table
import VizNode.Ledger.Objects
import VizNode.Ledger.Vesting
import VizNode.Ledger.Evaluators
import VizNode.Ledger.Services
import VizNode.Ledger.Sales
import VizNode.Ledger.Blocks
import VizNode.Lib.Forest
import VizNode.Bank.Moves
import VizNode.Bank.Shares
import VizNode.Bank.Reserve
import VizNode.Bank.Proxies
import VizNode.Bank.Delegations
import VizNode.Bank.Order
import VizNode.Ledger.Books
import VizNode.Ledger.Spreads
import VizNode.Ledger.Withdrawals
import VizNode.Ledger.Evaluations
import VizNode.Ledger.Stakes
import VizNode.Ledger.Payments
import VizNode.Ledger.Auctions
import VizNode.Ledger.Processing
import VizNode.Ledger.Runs
import VizNode.Ledger.Supply
import VizNode.Ledger.Footprints
import VizNode.Ledger.Walks
import VizNode.Lib.Places
import VizNode.Ledger.Instalments
import VizNode.Ledger.VoteDates
import VizNode.Ledger.Distribution
import VizNode.Lib.Polls
import VizNode.Ledger.Tallies
import VizNode.Ledger.Requests
import VizNode.Ledger.RewardShares
import VizNode.Ledger.Bids
import VizNode.Ledger.Escrows
import VizNode.Ledger.Titles
import VizNode.Ledger.Handover
import VizNode.Proposals.Outcomes
import VizNode.Ledger.Awards
import VizNode.Ledger.Standing
import VizNode.Lib.Files
import VizNode.DltBlockLog.Model
import VizNode.DltBlockLog.Layout
import VizNode.DltBlockLog.Images
import VizNode.DltBlockLog.Truncation
import VizNode.DltBlockLog.Refinement
import VizNode.DltBlockLog.Appends
import VizNode.BlockLog.Model
import VizNode.BlockLog.Images
import VizNode.BlockLog.Appends
import VizNode.Signing.SignState
import VizNode.Signing.Soundness
import VizNode.Signing.Verdict
import VizNode.Signing.Minimize
import VizNode.Chain.Dedup
import VizNode.Chain.Bare
import VizNode.Chain.Accepted
import VizNode.Chain.Timeline
import VizNode.Chain.Reindex
import VizNode.Chain.Rebuilt
import VizNode.Chain.Tapos
import VizNode.Network.Sync
import VizNode.Network.Bans
import VizNode.Network.Mempool
import VizNode.Network.Sending
import VizNode.Network.Framing
import VizNode.Network.Delegate
import VizNode.Network.ForkTracker
import VizNode.Network.Serving
import VizNode.Snapshot.Pending
import VizNode.Snapshot.RoundTrip
import VizNode.Snapshot.Transfer
import VizNode.Validators.Guard
import VizNode.Validators.Production
import VizNode.Chain.MerkleRoot
import VizNode.Chain.Extension
import VizNode.Protocol.Asset
import VizNode.Protocol.Names
import VizNode.Plugins.AccountHistory
import VizNode.Validators.Packing
import VizNode.Validators.Participation
import VizNode.Ledger.Subscriptions
import VizNode.Ledger.Credits
import VizNode.Lib.Medians
import VizNode.Validators.Properties
import VizNode.Lib.Buckets
import VizNode.Ledger.Purses
import VizNode.Ledger.Spending
import VizNode.Snapshot.Allowances
