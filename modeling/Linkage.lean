import Linkage.Http.Router
import Linkage.Main
import Linkage.Proofs.Engine.Assembly
import Linkage.Proofs.Engine.Avoidance
import Linkage.Proofs.Engine.Results
import Linkage.Proofs.Engine.WrittenPath
import Linkage.Proofs.Http.Links
import Linkage.Proofs.Identifier.Names
import Linkage.Proofs.Network.Content
import Linkage.Proofs.Request.Carried
import Linkage.Proofs.Search.Bounds
import Linkage.Proofs.Search.Ties
import Linkage.Proofs.Search.Shortest
import Linkage.Proofs.Service.Naming
import Linkage.Proofs.Service.Outcome
import Linkage.Proofs.Network.Limits
import Linkage.Proofs.Timers.Runs
import Linkage.Proofs.Timers.Clones
import Linkage.Proofs.Engine.Sessions
import Linkage.Proofs.Network.Members
import Linkage.Proofs.Network.Pairs
import Linkage.Proofs.Search.Removal
import Linkage.Proofs.Service.Passthrough
import Linkage.Proofs.Engine.Undirected
import Linkage.Proofs.Engine.Features
import Linkage.Proofs.Request.FirstFault
import Linkage.Proofs.Service.Timings
import Linkage.Proofs.Engine.Lookups
import Linkage.Proofs.Timers.InPlace
import Linkage.Proofs.Identifier.Spellings
import Linkage.Proofs.Search.Parents
