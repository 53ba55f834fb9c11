import Tanssi.SortedMap
import Tanssi.Iterator
import Tanssi.BinarySearch
import Tanssi.Frame
import Tanssi.FiniteSum
import Tanssi.Scale
import Tanssi.Header
import Tanssi.DelayedChanges
import Tanssi.AssignedCollators
import Tanssi.CollatorAssignment
import Tanssi.CollatorAssignment.Shape
import Tanssi.Invulnerables
import Tanssi.Configuration
import Tanssi.PooledStaking.Pallet
import Tanssi.PooledStaking.MulDiv
import Tanssi.PooledStaking.Pools
import Tanssi.PooledStaking.SharePrice
import Tanssi.PooledStaking.Candidate
import Tanssi.PooledStaking.Calls
import Tanssi.PooledStaking.Steps
import Tanssi.PooledStaking.Balances
import Tanssi.PooledStaking.Bookkeeping
import Tanssi.PooledStaking.Holds
import Tanssi.PooledStaking.Requests
import Tanssi.PooledStaking.HeldBalance
import Tanssi.PooledStaking.EligibleCandidates
import Tanssi.PooledStaking.NoPanic
import Tanssi.PooledStaking.ManualRewards
import Tanssi.Runtime.SessionManager
import Tanssi.Json
import Tanssi.Hex
import Tanssi.GenesisData
import Tanssi.Node.ContainerChainSpawner
import Tanssi.Registrar
import Tanssi.Registrar.Invariant
import Tanssi.Authorities
import Tanssi.Runtime.ApplySession
import Tanssi.Runtime.SessionDelay
import Tanssi.ChainStateSnapshot
import Tanssi.AuthorNoting
import Tanssi.AuthoritiesNoting
import Tanssi.Node.Consensus
import Tanssi.Initializer
import Tanssi.Runtime.Block
import Tanssi.Runtime.Authorship
import Tanssi.ServicesPayment
import Tanssi.Node.Service
