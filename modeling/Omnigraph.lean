import Omnigraph.Branch.Survives
import Omnigraph.Changes.Net
import Omnigraph.Changes.Walk
import Omnigraph.Cluster.Approvals
import Omnigraph.Cluster.Authority
import Omnigraph.Cluster.ExactKeys
import Omnigraph.Cluster.StateLock
import Omnigraph.Compiler.Overload
import Omnigraph.Compiler.WellScoped
import Omnigraph.Loader.Batch
import Omnigraph.Loader.Framing
import Omnigraph.Loader.NodeIds
import Omnigraph.Manifest.Linear
import Omnigraph.Merge.ChunkReplay
import Omnigraph.Merge.DeleteIds
import Omnigraph.Merge.Publishable
import Omnigraph.Merge.PureInsertSound
import Omnigraph.Merge.Rebatch
import Omnigraph.Mutation.Compose
import Omnigraph.Mutation.Sequence
import Omnigraph.Mutation.Serial
import Omnigraph.Params.Rendered
import Omnigraph.Policy.Gate
import Omnigraph.Query.FusedRanks
import Omnigraph.Query.Ties
import Omnigraph.Schema.Agreement
import Omnigraph.Server.Admission
import Omnigraph.Server.Delivery
import Omnigraph.Traverse.Agree
import Omnigraph.Traverse.Checked
import Omnigraph.Validate.Cardinality
import Omnigraph.Validate.Coalesced
import Omnigraph.Validate.EdgeRi
import Omnigraph.Validate.Ranges
import Omnigraph.WriteQueue
