import SplitTraversal.Session.Once
import SplitTraversal.Trial.Delivery
import SplitTraversal.Trial.Registration
import SplitTraversal.Trial.Steps
import SplitTraversal.Proofs.Calls
import SplitTraversal.Proofs.IndexedPlay
import SplitTraversal.Proofs.IndexedAccepted
import SplitTraversal.Proofs.IndexedFamily
import SplitTraversal.Proofs.FamilyAccounts
import SplitTraversal.Proofs.StepwiseDrains
import SplitTraversal.Proofs.IndexedStrategies
import SplitTraversal.Proofs.Cuts
import SplitTraversal.Proofs.GuardedRefinement
import SplitTraversal.Proofs.Contract
import SplitTraversal.Proofs.IndexedContract
import SplitTraversal.Proofs.ContractTraversal
import SplitTraversal.Proofs.GuardedRounds
import SplitTraversal.Proofs.GuardedEnds
import SplitTraversal.Proofs.LeafRanges
import SplitTraversal.Proofs.LeafConsumption
import SplitTraversal.Proofs.Announcements
import SplitTraversal.Proofs.HarnessRun
import SplitTraversal.Proofs.ComparatorSigns
import SplitTraversal.Proofs.SortedSets
import SplitTraversal.Proofs.NodeContract
import SplitTraversal.Proofs.ListSources
import SplitTraversal.Proofs.CheckVerdicts
import SplitTraversal.Proofs.SampleConformance
import SplitTraversal.Proofs.Reentrance
import SplitTraversal.Proofs.DeclaredTraits
import SplitTraversal.Proofs.PlanAgreement
import SplitTraversal.Proofs.StrategyVerdicts
import SplitTraversal.Proofs.MultisetDifference
import SplitTraversal.Proofs.ElementsVerdicts
import SplitTraversal.Proofs.OrderedSets
import SplitTraversal.Proofs.LeafSizes
import SplitTraversal.Proofs.TracedDivisions
import SplitTraversal.Proofs.OrderVerdicts
import SplitTraversal.Proofs.PartitionEnds
import SplitTraversal.Proofs.NaturalSets
import SplitTraversal.Proofs.SortedExpectations
import SplitTraversal.Proofs.ComparatorEvidence
import SplitTraversal.Proofs.SizeVerdicts
import SplitTraversal.Proofs.StrategyReports
import SplitTraversal.Proofs.ForeseenReports
import SplitTraversal.Proofs.OverlappingSplits
import SplitTraversal.Proofs.UnshrinkingSplits
import SplitTraversal.Proofs.KnownDefects
import SplitTraversal.Proofs.FlagSets
import SplitTraversal.Proofs.Deliveries
import SplitTraversal.Proofs.Followers
import SplitTraversal.Proofs.BesideRuns
import SplitTraversal.Proofs.TracedRuns
import SplitTraversal.Proofs.UnawareSources
import SplitTraversal.Proofs.UnawareNodes
import SplitTraversal.Proofs.TracedNodes
