import QueryLineage.Main
import QueryLineage.Proofs.AliasPrecedence
import QueryLineage.Proofs.AssembledGraph
import QueryLineage.Proofs.ColumnOwners
import QueryLineage.Proofs.CteClosure
import QueryLineage.Proofs.EdgeRepetition
import QueryLineage.Proofs.LexicalScope
import QueryLineage.Proofs.KnownQualification
import QueryLineage.Proofs.LookUps
import QueryLineage.Proofs.ProviderAnswers
import QueryLineage.Proofs.QualificationRuns
import QueryLineage.Proofs.SourceGrounding
import QueryLineage.Proofs.ReservedIds
import QueryLineage.Proofs.CatalogNames
import QueryLineage.Proofs.ProviderSimulation
import QueryLineage.Proofs.CachedAnswers
import QueryLineage.Proofs.ColumnEdges
import QueryLineage.Proofs.JoinEdges
import QueryLineage.Proofs.CatalogInserts
import QueryLineage.Proofs.TableMentions
import QueryLineage.Proofs.ReportReading
import QueryLineage.Proofs.CteListing
import QueryLineage.Proofs.AliasTargets
import QueryLineage.Proofs.ColumnScopes
import QueryLineage.Proofs.CompletedNames
import QueryLineage.Proofs.PredicateMeaning
import QueryLineage.Proofs.JoinChains
import QueryLineage.Proofs.ColumnSpelling
import QueryLineage.Proofs.NodeOrigins
import QueryLineage.Proofs.JoinInputs
import QueryLineage.Proofs.EnrichedNodes
import QueryLineage.Proofs.ReadingNames
import QueryLineage.Proofs.WrittenNames
import QueryLineage.Proofs.NameParts
import QueryLineage.Proofs.AggregateCalls
import QueryLineage.Proofs.SlotProjections
import QueryLineage.Proofs.DotReading
import QueryLineage.Proofs.ExpressionWalk
import QueryLineage.Proofs.FoundInExpressions
import QueryLineage.Proofs.Containment
import QueryLineage.Proofs.DimensionEdges
import QueryLineage.Proofs.GroupingAliases
