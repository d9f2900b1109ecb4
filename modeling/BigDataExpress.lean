import BigDataExpress.Lib.Prog
import BigDataExpress.Lib.Trace
import BigDataExpress.Lib.Pool
import BigDataExpress.Lib.Phases
import BigDataExpress.Lib.Collection
import BigDataExpress.Lib.PtrGraph
import BigDataExpress.Lib.Named
import BigDataExpress.Lib.Stateful
import BigDataExpress.Server.Types
import BigDataExpress.Server.World
import BigDataExpress.Server.SiteStore
import BigDataExpress.Server.Network
import BigDataExpress.Server.Sdn
import BigDataExpress.Server.Schedule
import BigDataExpress.Server.MldStatus
import BigDataExpress.Server.PollRate
import BigDataExpress.Server.Atomic
import BigDataExpress.Server.Dispatch
import BigDataExpress.Server.ResourceGraph
import BigDataExpress.Server.ResourceManager
import BigDataExpress.Proofs.Store
import BigDataExpress.Proofs.Alike
import BigDataExpress.Proofs.Tracker
import BigDataExpress.Proofs.NetActs
import BigDataExpress.Proofs.Outcome
import BigDataExpress.Proofs.Report
import BigDataExpress.Proofs.Attempt
import BigDataExpress.Proofs.Effect
import BigDataExpress.Proofs.Exact
import BigDataExpress.Proofs.Sound
import BigDataExpress.Proofs.Poll
import BigDataExpress.Proofs.Atomic
import BigDataExpress.Proofs.Live
import BigDataExpress.Proofs.Terminal
import BigDataExpress.Proofs.Failure
import BigDataExpress.Proofs.CleanUp
import BigDataExpress.Proofs.Ledger
import BigDataExpress.Proofs.AllOrNothing
import BigDataExpress.Proofs.Sdn
import BigDataExpress.Proofs.Quiet
import BigDataExpress.Proofs.Phase
import BigDataExpress.Proofs.Walk
import BigDataExpress.Proofs.Base
import BigDataExpress.Proofs.Completion
import BigDataExpress.Proofs.Adjacency
import BigDataExpress.Proofs.Mirror
import BigDataExpress.Proofs.Modules
import BigDataExpress.Proofs.Registry
import BigDataExpress.Proofs.Shape
import BigDataExpress.Proofs.Designated
import BigDataExpress.Proofs.Order
import BigDataExpress.Utils.Path
import BigDataExpress.Utils.DirTree
import BigDataExpress.Utils.Checksum
import BigDataExpress.Agent.Expand
import BigDataExpress.Agent.Response
import BigDataExpress.Proofs.Digest
import BigDataExpress.Proofs.Paths
import BigDataExpress.Proofs.Groups
import BigDataExpress.Proofs.Verified
import BigDataExpress.Proofs.Divide
import BigDataExpress.Proofs.Placement
import BigDataExpress.Utils.Json
import BigDataExpress.Utils.Rpc
import BigDataExpress.Server.Commands
import BigDataExpress.Proofs.Serve
import BigDataExpress.Proofs.Answers
import BigDataExpress.Proofs.Correlation
import BigDataExpress.Proofs.Partition
import BigDataExpress.Server.Admission
import BigDataExpress.Proofs.Matching
import BigDataExpress.Proofs.Probe
import BigDataExpress.Proofs.Provision
import BigDataExpress.Proofs.Shares
import BigDataExpress.Proofs.CreateJob
import BigDataExpress.Lib.Multimap
import BigDataExpress.Lib.Text
import BigDataExpress.Utils.GridMapfile
import BigDataExpress.Proofs.GridMapfile
import BigDataExpress.Utils.Disk
import BigDataExpress.Agent.Requests
import BigDataExpress.Proofs.Resolution
import BigDataExpress.Proofs.Congruence
import BigDataExpress.Proofs.Confinement
import BigDataExpress.Proofs.Debts
import BigDataExpress.Proofs.Accounting
import BigDataExpress.Proofs.Deposits
import BigDataExpress.Proofs.Cover
import BigDataExpress.Proofs.Limits
import BigDataExpress.Proofs.Totals
import BigDataExpress.Proofs.Dealings
import BigDataExpress.Proofs.Retries
import BigDataExpress.Proofs.Acknowledged
import BigDataExpress.Lib.Trying
import BigDataExpress.Server.Bootstrap
import BigDataExpress.Proofs.Intake
import BigDataExpress.Proofs.Bootstrap
import BigDataExpress.Proofs.Parsed
import BigDataExpress.Proofs.Listing
import BigDataExpress.Proofs.Dataset
import BigDataExpress.Proofs.Parsing
import BigDataExpress.Proofs.Space
import BigDataExpress.Proofs.Schedulable
import BigDataExpress.Agent.Response
import BigDataExpress.Proofs.Carried
import BigDataExpress.Proofs.PathGroups
import BigDataExpress.Proofs.Containment
import BigDataExpress.Agent.Traffic
import BigDataExpress.Proofs.Traffic
import BigDataExpress.Proofs.Balance
import BigDataExpress.Proofs.Stored
import BigDataExpress.Proofs.Filling
import BigDataExpress.Proofs.Joining
import BigDataExpress.Agent.Bandwidth
import BigDataExpress.Proofs.Bandwidth
import BigDataExpress.Proofs.FsUsage
import BigDataExpress.Proofs.MapDirectory
import BigDataExpress.Proofs.Size
import BigDataExpress.Lib.RbSet
import BigDataExpress.Proofs.Mounts
import BigDataExpress.Lib.Escape
import BigDataExpress.Lib.LineProtocol
import BigDataExpress.Utils.TimeSeries
import BigDataExpress.Proofs.TimeSeries
import BigDataExpress.Utils.JsonText
import BigDataExpress.Proofs.JsonText
import BigDataExpress.Utils.Mqtt
import BigDataExpress.Proofs.Relay
import BigDataExpress.Lib.Presence
import BigDataExpress.Server.Presence
import BigDataExpress.Proofs.Presence
import BigDataExpress.Server.RpcHandler
import BigDataExpress.Agent.Daemon
import BigDataExpress.Agent.Gridmap
import BigDataExpress.Proofs.RpcHandler
import BigDataExpress.Proofs.UserMapping
import BigDataExpress.Proofs.Daemon
import BigDataExpress.Proofs.Topology
import BigDataExpress.Proofs.BestEffort
