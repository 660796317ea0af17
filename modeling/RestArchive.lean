import RestArchive.Main
import RestArchive.Mongo
import RestArchive.Proofs.Commute
import RestArchive.Proofs.Identity
import RestArchive.Proofs.ReadAfterWrite
import RestArchive.Rules
import RestArchive.Proofs.Origins
import RestArchive.Proofs.Commands
import RestArchive.Proofs.Requests
import RestArchive.Proofs.Causes
import RestArchive.Proofs.Refusals
import RestArchive.Proofs.Containment
import RestArchive.Proofs.StampedElements
import RestArchive.Proofs.ElementIds
import RestArchive.Proofs.AddressableStores
import RestArchive.Proofs.OrderlyRequests
import RestArchive.Proofs.Resolution
import RestArchive.Proofs.PathTokens
import RestArchive.Proofs.DatabasePaths
import RestArchive.Proofs.QueryMeaning
import RestArchive.Proofs.Denotation
import RestArchive.Proofs.LookUp
import RestArchive.Proofs.StoredReplies
import RestArchive.Proofs.UnselectedScopes
import RestArchive.Proofs.OwnValues
import RestArchive.Proofs.MergedElements
import RestArchive.Proofs.Mounting
import RestArchive.Proofs.EqualityFilters
import RestArchive.Proofs.ShownFields
import RestArchive.Proofs.RepeatedUpdates
import RestArchive.Proofs.ShownIdentifier
import RestArchive.Proofs.IdentifiedBodies
import RestArchive.Proofs.AddedIdentifiers
import RestArchive.Proofs.FailureLeaves
import RestArchive.Proofs.DistinctPaths
import RestArchive.Proofs.Locations
import RestArchive.Proofs.AppendedElements
import RestArchive.Proofs.LabelSearch
import RestArchive.Proofs.StoreLoops
