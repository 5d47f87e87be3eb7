import JsonCollections.Http.Service
import JsonCollections.Http.Settings
import JsonCollections.Main
import JsonCollections.Query.Document
import JsonCollections.Session.Basic
import JsonCollections.Storage.Memory
import JsonCollections.Proofs.Number.Rounding
import JsonCollections.Proofs.Number.Shortest
import JsonCollections.Proofs.Number.Layout
import JsonCollections.Proofs.Json.Numeral
import JsonCollections.Proofs.Json.Quoted
import JsonCollections.Proofs.Json.RoundTrip
import JsonCollections.Proofs.Json.Answers
import JsonCollections.Proofs.Json.Patching
import JsonCollections.Proofs.Collection.Stored
import JsonCollections.Proofs.Storage.Laws
import JsonCollections.Proofs.Collection.Reload
import JsonCollections.Proofs.Storage.Disk
import JsonCollections.Proofs.Session.Locks
import JsonCollections.Proofs.Session.Steps
import JsonCollections.Proofs.Session.Holders
import JsonCollections.Proofs.Session.Updates
import JsonCollections.Proofs.Session.Fairness
import JsonCollections.Proofs.Collection.ItemMap
import JsonCollections.Proofs.Collection.RoundTrip
import JsonCollections.Proofs.Collection.Outcomes
import JsonCollections.Proofs.Collection.Renewed
import JsonCollections.Proofs.Collection.Agreement
import JsonCollections.Proofs.Http.ItemRoutes
import JsonCollections.Proofs.Session.Handles
import JsonCollections.Proofs.Session.InUse
import JsonCollections.Proofs.Query.Grammar
import JsonCollections.Proofs.Number.Operand
import JsonCollections.Proofs.Query.Document
import JsonCollections.Proofs.Http.Effects
import JsonCollections.Proofs.Storage.Places
import JsonCollections.Proofs.Query.Paging
import JsonCollections.Proofs.Query.Parameters
import JsonCollections.Proofs.Collection.Loading
import JsonCollections.Proofs.Session.Interchange
import JsonCollections.Proofs.Number.Order
import JsonCollections.Proofs.Query.Operators
import JsonCollections.Proofs.Collection.Lookup
import JsonCollections.Proofs.Collection.FirstMatch
import JsonCollections.Proofs.Query.Combining
import JsonCollections.Proofs.Collection.ExactIds
import JsonCollections.Proofs.Collection.WholeFiles
import JsonCollections.Proofs.Http.Targets
import JsonCollections.Proofs.Query.Projection
import JsonCollections.Proofs.Query.ExactOperands
import JsonCollections.Proofs.Query.Paths
