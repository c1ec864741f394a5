import Kadpeer.Core.Absorb
import Kadpeer.Core.Fault
import Kadpeer.Core.Fiber
import Kadpeer.Core.Fips
import Kadpeer.Core.HashTable
import Kadpeer.Core.Keyed
import Kadpeer.Core.LTS
import Kadpeer.Core.Limbs
import Kadpeer.Core.Lock
import Kadpeer.Core.LongDivision
import Kadpeer.Core.Numeral
import Kadpeer.Core.Rank
import Kadpeer.Core.Remote
import Kadpeer.Core.Sessions
import Kadpeer.Core.Tagged
import Kadpeer.L1Common.Dispatch
import Kadpeer.L1Common.Handle
import Kadpeer.L1Common.SHA1
import Kadpeer.L1Common.StringMap
import Kadpeer.L1Common.ThreadPool
import Kadpeer.L1Common.Wakeup
import Kadpeer.L1Number.Decimal
import Kadpeer.L1Number.Distance
import Kadpeer.L1Number.Division
import Kadpeer.L1Number.KadID
import Kadpeer.L1Number.Midpoint
import Kadpeer.L1Number.Rossi
import Kadpeer.L2Bucket.Contact
import Kadpeer.L2Bucket.KBucket
import Kadpeer.L2Bucket.Wire
import Kadpeer.L2Store.DataStore
import Kadpeer.L2Store.Expiry
import Kadpeer.L2Store.Frame
import Kadpeer.L2Store.Lifetime
import Kadpeer.L2Store.Tombstone
import Kadpeer.L2Store.ValuesToRefresh
import Kadpeer.L3Table.Bounds
import Kadpeer.L3Table.FindClose
import Kadpeer.L3Table.ForceK
import Kadpeer.L3Table.Furthest
import Kadpeer.L3Table.Halving
import Kadpeer.L3Table.Holder
import Kadpeer.L3Table.LeastUseful
import Kadpeer.L3Table.Level
import Kadpeer.L3Table.Nearest
import Kadpeer.L3Table.Partition
import Kadpeer.L3Table.Placement
import Kadpeer.L3Table.Positions
import Kadpeer.L3Table.Recency
import Kadpeer.L3Table.RefreshIds
import Kadpeer.L3Table.RefreshList
import Kadpeer.L3Table.RoutingTable
import Kadpeer.L3Table.Terminates
import Kadpeer.L3Table.Transaction
import Kadpeer.L4Service.ClosestNodes
import Kadpeer.L4Service.Hashable
import Kadpeer.L4Service.KadRpcs
import Kadpeer.L4Service.KadService
import Kadpeer.L4Service.Messages
import Kadpeer.L4Service.Named
import Kadpeer.L4Service.Network
import Kadpeer.L4Service.Refresh
import Kadpeer.L4Service.Results
import Kadpeer.L4Service.RoundTrip
import Kadpeer.L4Service.Rpc
import Kadpeer.L4Service.Runs
import Kadpeer.L4Service.Sender
import Kadpeer.L4Service.Thrift
